/-
What keeping files does to a computation, in a file tree that does not change.

What a computation can find out is what is kept, overlaid on what the files hold. Reading a file and keeping it does not
change that. So a computation gives the same result with every cache with which the same things can be found out, and
leaves such a cache behind.

- `gives_bind`, `gives_foldlM`: one computation after another.
- `gives_ranking`, `gives_relatedTitles`: files that are kept.
- `found_empty`: what is found with nothing kept.
-/
import RankEval.Campaign.Cache
import RankEval.Proofs.Files.Attempts

namespace RankEval

/-- what can be found out from the files that are kept: the rows under a path, and the titles that are related to a
page -/
structure Found where
  rows : FilePath → Except Failure (Option Inputs.RankedRows)
  titles : Nat → Except Failure Inputs.Judgments

/-! ## What is kept -/

section
variable {K V : Type} [Ord K]

/-- what is kept and, where nothing is, what is read -/
def overlay (kept : Std.TreeMap K V) (read : K → Except Failure V) (key : K) : Except Failure V :=
  kept[key]?.elim (read key) .ok

/-- to keep what was read changes nothing -/
theorem overlay_insert [Std.TransOrd K] [Std.LawfulEqOrd K] {kept : Std.TreeMap K V} {read : K → Except Failure V}
    {key : K} {value : V} (hnone : kept[key]? = none) (hread : read key = .ok value) :
    overlay (kept.insert key value) read = overlay kept read := by
  funext other
  unfold overlay
  rw [Std.TreeMap.getElem?_insert]
  by_cases h : key = other
  · subst h
    rw [if_pos Std.ReflCmp.compare_self, hnone, Option.elim_none, hread, Option.elim_some]
  · rw [if_neg (by rwa [Std.LawfulEqOrd.compare_eq_iff_eq])]

theorem overlay_empty [Std.TransOrd K] (read : K → Except Failure V) : overlay ∅ read = read := by
  funext key
  rw [overlay, Std.TreeMap.getElem?_emptyc, Option.elim_none]

end

variable (t : FileTree) (directory : FilePath)

/-- what is kept, overlaid on the files of a tree; the files of related titles lie in the directory -/
def Cache.found (cache : Cache) : Found where
  rows := overlay cache.rankings fun path => Attempt.outcome t (Inputs.rankedRows path)
  titles := overlay cache.related fun page => Attempt.outcome t (Inputs.relatedTitles directory page)

/-- with nothing kept, everything is found in the files -/
theorem Cache.found_empty :
    Cache.empty.found t directory = ⟨fun path => Attempt.outcome t (Inputs.rankedRows path),
      fun page => Attempt.outcome t (Inputs.relatedTitles directory page)⟩ := by
  rw [Cache.found, Cache.empty, overlay_empty, overlay_empty]

namespace Cached

variable {α β : Type}

/-- the result of a computation that starts with a cache, and the cache it leaves behind -/
def outcome (cache : Cache) (a : Cached α) : Except Failure α × Cache := (a.run.run cache).run t

theorem outcome_bind (cache : Cache) (a : Cached α) (f : α → Cached β) :
    outcome t cache (a >>= f) = match outcome t cache a with
      | (.ok x, kept) => outcome t kept (f x)
      | (.error failure, kept) => (.error failure, kept) := by
  have hbind : outcome t cache (a >>= f) = (((ExceptT.bindCont f : Except Failure α → StateT Cache Reading _)
      (outcome t cache a).1).run (outcome t cache a).2).run t := Reading.run_bind t (a.run.run cache) _
  rw [hbind]
  obtain ⟨result, kept⟩ := outcome t cache a
  cases result <;> rfl

theorem outcome_attempt (cache : Cache) (a : Attempt α) :
    outcome t cache (Cache.attempt a) = (Attempt.outcome t a, cache) := Reading.run_bind t a.run _

/-- The computation gives the result whenever the given things can be found out, and the same things can be found out
after it. -/
def Gives (found : Found) (a : Cached α) (result : Except Failure α) : Prop :=
  ∀ cache : Cache, cache.found t directory = found →
    ∃ kept : Cache, outcome t cache a = (result, kept) ∧ kept.found t directory = found

variable {t directory} {found : Found} {a : Cached α}

theorem gives_pure (x : α) : Gives t directory found (pure x) (.ok x) :=
  fun cache hfound => ⟨cache, rfl, hfound⟩

theorem gives_throw (failure : Failure) : Gives t directory found (throw failure : Cached α) (.error failure) :=
  fun cache hfound => ⟨cache, rfl, hfound⟩

theorem gives_attempt (b : Attempt α) : Gives t directory found (Cache.attempt b) (Attempt.outcome t b) :=
  fun cache hfound => ⟨cache, outcome_attempt t cache b, hfound⟩

/-- one computation after another, unless the first one fails -/
theorem gives_bind {f : α → Cached β} {first : Except Failure α} {second : α → Except Failure β}
    (ha : Gives t directory found a first) (hf : ∀ x, Gives t directory found (f x) (second x)) :
    Gives t directory found (a >>= f) (first.bind second) := by
  intro cache hfound
  obtain ⟨kept, hrun, hkept⟩ := ha cache hfound
  rw [outcome_bind, hrun]
  cases first with
  | error failure => exact ⟨kept, rfl, hkept⟩
  | ok x => exact hf x kept hkept

theorem gives_map {result : Except Failure α} (ha : Gives t directory found a result) (f : α → β) :
    Gives t directory found (a >>= fun x => pure (f x)) (result.map f) := by
  have hmap : result.map f = result.bind fun x => .ok (f x) := by
    cases result <;> rfl
  rw [hmap]
  exact gives_bind ha fun x => gives_pure (f x)

/-- a number of steps, up to the first one that fails -/
theorem gives_foldlM {step : β → α → Cached β} {stepIn : β → α → Except Failure β}
    (h : ∀ b x, Gives t directory found (step b x) (stepIn b x)) (xs : List α) (b : β) :
    Gives t directory found (xs.foldlM step b) (xs.foldlM stepIn b) := by
  -- a step leaves behind what can be found out, so that the next one finds the same
  induction xs generalizing b with
  | nil => exact gives_pure b
  | cons x xs ih =>
    have hsteps := gives_bind (h b x) ih
    rw [List.foldlM_cons]
    exact hsteps

/-- a failure that is observed is a result like any other -/
theorem gives_observe {result : Except Failure α} (ha : Gives t directory found a result) :
    Gives t directory found (Cache.observe a) (.ok result) := by
  intro cache hfound
  obtain ⟨kept, hrun, hkept⟩ := ha cache hfound
  refine ⟨kept, ?_, hkept⟩
  have hobserve : outcome t cache (Cache.observe a) = (.ok (outcome t cache a).1, (outcome t cache a).2) :=
    Reading.run_bind t (a.run.run cache) _
  rw [hobserve, hrun]

/-! ## Files that are kept -/

theorem outcome_get (cache : Cache) : outcome t cache (get : Cached Cache) = (.ok cache, cache) := rfl

/-- What is kept is not read again. What is read is put into the cache, unless reading fails. -/
def keeping {V : Type} (look : Option V) (read : Except Failure V) (put : V → Cache) (cache : Cache) :
    Except Failure V × Cache :=
  match look, read with
  | some known, _ => (.ok known, cache)
  | none, .ok value => (.ok value, put value)
  | none, .error failure => (.error failure, cache)

/-- if to keep what was read changes nothing, the same can be found out after looking something up as before -/
theorem exists_keeping {V : Type} {look : Option V} {read : Except Failure V} {put : V → Cache} {cache : Cache}
    (hput : ∀ value, look = none → read = .ok value → (put value).found t directory = cache.found t directory) :
    ∃ kept, keeping look read put cache = (look.elim read .ok, kept) ∧
      kept.found t directory = cache.found t directory := by
  cases look with
  | some known => exact ⟨cache, rfl, rfl⟩
  | none =>
    cases read with
    | error failure => exact ⟨cache, rfl, rfl⟩
    | ok value => exact ⟨put value, rfl, hput value rfl rfl⟩

theorem outcome_ranking (cache : Cache) (path : FilePath) :
    outcome t cache (Cache.ranking path) = keeping cache.rankings[path]? (Attempt.outcome t (Inputs.rankedRows path))
      (fun rows => { cache with rankings := cache.rankings.insert path rows }) cache := by
  unfold Cache.ranking
  rw [outcome_bind, outcome_get]
  dsimp only
  cases cache.rankings[path]? with
  | some known => rfl
  | none =>
    dsimp only
    rw [outcome_bind, outcome_attempt]
    cases Attempt.outcome t (Inputs.rankedRows path) <;> rfl

theorem gives_ranking (path : FilePath) : Gives t directory found (Cache.ranking path) (found.rows path) := by
  intro cache hfound
  subst hfound
  rw [outcome_ranking]
  refine exists_keeping fun rows hnone hread => ?_
  exact congrArg (fun rows => Found.mk rows (cache.found t directory).titles) (overlay_insert hnone hread)

theorem outcome_relatedTitles (cache : Cache) (page : Nat) :
    outcome t cache (Cache.relatedTitles directory page) =
      keeping cache.related[page]? (Attempt.outcome t (Inputs.relatedTitles directory page))
        (fun titles => { cache with related := cache.related.insert page titles }) cache := by
  unfold Cache.relatedTitles
  rw [outcome_bind, outcome_get]
  dsimp only
  cases cache.related[page]? with
  | some known => rfl
  | none =>
    dsimp only
    rw [outcome_bind, outcome_attempt]
    cases Attempt.outcome t (Inputs.relatedTitles directory page) <;> rfl

theorem gives_relatedTitles (page : Nat) :
    Gives t directory found (Cache.relatedTitles directory page) (found.titles page) := by
  intro cache hfound
  subst hfound
  rw [outcome_relatedTitles]
  refine exists_keeping fun titles hnone hread => ?_
  exact congrArg (Found.mk (cache.found t directory).rows) (overlay_insert hnone hread)

end Cached

end RankEval
