/-
Sets and indices never drift from the lists that they stand for. Every operation keeps its container's list and its set
or index up to date on its own; here each is shown to answer, after any session, just as the list alone does.

- `keeps_insert`, `keeps_push`, `keeps_raise`, `keeps_ofEntries`: what one change does to list and index.
- `Simulation.run`: containers in two forms whose operations correspond stay related over a whole session.
- `stored_simulates_listed`: the two forms correspond, and no relevance is negative or no number.
- `session_sound`: after any session of operations the containers are sound, and no pair that is aligned from them is
  rejected for its shape.
- `session_sound_six`: a session with scores that are negative, infinite or no number.
-/
import RankEval.Candidates.Stored
import RankEval.Proofs.Candidates.Scoring
import RankEval.Proofs.Metric.Validity

namespace RankEval

/-! ## A universe and its set -/

namespace StoredUniverse

/-- the list is this one, and the set is the set of its tables -/
structure Keeps (u : StoredUniverse) (items : List TableId) : Prop where
  list : u.items = items
  mem_iff : ∀ t, t ∈ u.members ↔ t ∈ items

variable {u : StoredUniverse} {items : List TableId}

theorem Keeps.contains_iff (h : u.Keeps items) (t : TableId) : u.contains t = true ↔ t ∈ items :=
  Std.TreeSet.mem_iff_contains.symm.trans (h.mem_iff t)

theorem keeps_insert (h : u.Keeps items) (t : TableId) :
    (u.insert t).Keeps (if t ∈ items then items else items ++ [t]) := by
  unfold insert
  by_cases ht : t ∈ items
  · rw [if_pos ((h.contains_iff t).2 ht), if_pos ht]
    exact h
  · rw [if_neg (mt (h.contains_iff t).1 ht), if_neg ht]
    refine ⟨congrArg (· ++ [t]) h.list, fun t' => ?_⟩
    rw [Std.TreeSet.mem_insert, h.mem_iff, Std.LawfulEqOrd.compare_eq_iff_eq, List.mem_append, List.mem_singleton,
      eq_comm, or_comm]

theorem keeps_ofList (tables : List TableId) : (ofList tables).Keeps (Distinct.names tables) := by
  induction tables using List.reverseRecOn with
  | nil => exact ⟨rfl, by simp [ofList, empty, Distinct.names, Distinct.firstBy, Distinct.keepFirst]⟩
  | append_singleton tables t ih =>
    have hmem : t ∈ Distinct.names tables ↔ t ∈ tables.map id := by
      rw [List.map_id]
      simpa [Distinct.names] using Distinct.mem_keys_firstBy id t tables
    have hstep := keeps_insert ih t
    rw [if_congr hmem rfl rfl] at hstep
    rw [Distinct.names, Distinct.firstBy_concat, ofList, List.foldl_concat]
    exact hstep

theorem keeps_without (h : u.Keeps items) (hnodup : items.Nodup) (excluded : List TableId) :
    (u.without excluded).Keeps (CandidateUniverse.remaining excluded items) := by
  have hkeeps := keeps_ofList (CandidateUniverse.remaining excluded items)
  have hnames : Distinct.names (CandidateUniverse.remaining excluded items) =
      CandidateUniverse.remaining excluded items := by
    exact (Distinct.names_eq_eraseDups _).trans (Distinct.eraseDups_of_nodup (hnodup.filter _))
  rw [hnames] at hkeeps
  rw [without, h.list]
  exact hkeeps

theorem keeps_labeled {corpus : CandidateUniverse} (h : u.Keeps corpus.items) (page : List TableId) (seed : UInt64) :
    (labeled page u seed).Keeps (CandidateUniverse.labeled page corpus seed).items := by
  rw [labeled, h.list]
  exact keeps_ofList _

end StoredUniverse

/-! ## A list of tables and the index of their places -/

/-- the index gives every table the place that it has in the list, and no other table a place -/
def IsIndexOf (places : Std.TreeMap TableId Nat) (tables : List TableId) : Prop :=
  ∀ (t : TableId) (i : Nat), places[t]? = some i ↔ tables[i]? = some t

theorem IsIndexOf.insert {places : Std.TreeMap TableId Nat} {tables : List TableId} (h : IsIndexOf places tables)
    {t : TableId} (ht : t ∉ tables) : IsIndexOf (places.insert t tables.length) (tables ++ [t]) := by
  intro t' i
  rw [Std.TreeMap.getElem?_insert, List.getElem?_append]
  by_cases heq : t = t'
  · subst heq
    rw [if_pos Std.ReflOrd.compare_self, Option.some.injEq]
    -- the table has no place before the last one
    split
    · next hi => exact iff_of_false (by omega) fun hmem => ht (List.mem_of_getElem? hmem)
    · next hi =>
      rw [List.getElem?_singleton]
      split <;> simp <;> omega
  · rw [if_neg (by rwa [Std.LawfulEqOrd.compare_eq_iff_eq]), h t' i]
    split
    · exact Iff.rfl
    · next hi =>
      rw [List.getElem?_eq_none (by omega), List.getElem?_singleton]
      split <;> simp [heq]

theorem IsIndexOf.mem_iff {places : Std.TreeMap TableId Nat} {tables : List TableId} (h : IsIndexOf places tables)
    (t : TableId) : t ∈ places ↔ t ∈ tables := by
  rw [Std.TreeMap.mem_iff_isSome_getElem?, Option.isSome_iff_exists, List.mem_iff_getElem?]
  exact exists_congr (h t)

namespace Indexed

/-- the list is this one, and the index is an index of it -/
structure Keeps (x : Indexed) (entries : List (TableId × Float)) : Prop where
  list : x.entries = entries
  index : IsIndexOf x.places (entries.map Prod.fst)

variable {x : Indexed} {entries : List (TableId × Float)}

theorem Keeps.contains_iff (h : x.Keeps entries) (t : TableId) : x.contains t = true ↔ t ∈ entries.map Prod.fst := by
  rw [contains, ← Std.TreeMap.mem_iff_contains]
  exact h.index.mem_iff t

/-- what the index leads to is what the list says -/
theorem Keeps.get?_eq (h : x.Keeps entries) (hnodup : (entries.map Prod.fst).Nodup) (t : TableId) :
    x.get? t = entries.lookup t := by
  ext v
  rw [Distinct.lookup_eq_some_iff hnodup, get?, values, h.list, Option.bind_eq_bind, Option.bind_eq_some_iff,
    List.mem_iff_getElem?]
  refine exists_congr fun i => ?_
  rw [h.index t i, List.getElem?_map, List.getElem?_map, Option.map_eq_some_iff, Option.map_eq_some_iff]
  constructor
  · rintro ⟨⟨e, he, rfl⟩, e', he', rfl⟩
    rw [he] at he' ⊢
    cases he'
    rfl
  · intro he
    exact ⟨⟨_, he, rfl⟩, _, he, rfl⟩

theorem keeps_empty : empty.Keeps [] := ⟨rfl, fun t i => by simp [empty]⟩

theorem keeps_push (h : x.Keeps entries) (t : TableId) (v : Float) :
    (x.push t v).Keeps (if t ∈ entries.map Prod.fst then entries else entries ++ [(t, v)]) := by
  unfold push
  by_cases ht : t ∈ entries.map Prod.fst
  · rw [if_pos ((h.contains_iff t).2 ht), if_pos ht]
    exact h
  · rw [if_neg (mt (h.contains_iff t).1 ht), if_neg ht, h.list]
    refine ⟨rfl, ?_⟩
    have hindex := h.index.insert ht
    rw [List.length_map] at hindex
    rw [List.map_append]
    exact hindex

theorem keeps_ofPairs (pairs : List (TableId × Float)) : (ofPairs pairs).Keeps (Distinct.firstBy Prod.fst pairs) := by
  induction pairs using List.reverseRecOn with
  | nil => exact keeps_empty
  | append_singleton pairs e ih =>
    have hstep := keeps_push ih e.1 e.2
    rw [if_congr (Distinct.mem_keys_firstBy Prod.fst e.1 pairs) rfl rfl] at hstep
    rw [Distinct.firstBy_concat, ofPairs, List.foldl_concat]
    exact hstep

/-- numbering the tables of a list anew gives an index of it -/
theorem keeps_ofEntries {entries : List (TableId × Float)} (hnodup : (entries.map Prod.fst).Nodup) :
    (ofEntries entries).Keeps entries := by
  refine ⟨rfl, ?_⟩
  unfold ofEntries
  induction entries using List.reverseRecOn with
  | nil => exact fun t i => by simp
  | append_singleton entries e ih =>
    rw [List.map_append, List.nodup_append] at hnodup
    obtain ⟨hnodup, -, hdisjoint⟩ := hnodup
    have hnew : e.1 ∉ entries.map Prod.fst := fun h => hdisjoint _ h e.1 (by simp) rfl
    have hindex := (ih hnodup).insert hnew
    rw [List.length_map] at hindex
    rw [List.zipIdx_append, List.foldl_append, List.map_append]
    simpa using hindex

/-- raising one table changes its value and nothing else -/
theorem keeps_raise (h : x.Keeps entries) (t : TableId) (s : Float) :
    (x.raise t s).Keeps (entries.map fun e => (e.1, if e.1 = t then RelevanceMap.raise e.2 s else e.2)) := by
  have hkeys : (entries.map fun e => (e.1, if e.1 = t then RelevanceMap.raise e.2 s else e.2)).map Prod.fst =
      entries.map Prod.fst := by
    rw [List.map_map]
    rfl
  cases hplace : x.places[t]? with
  | none =>
    have habsent : ∀ e ∈ entries, e.1 ≠ t := by
      rintro e he rfl
      obtain ⟨i, hi⟩ := List.mem_iff_getElem?.1 (List.mem_map_of_mem (f := Prod.fst) he)
      rw [(h.index e.1 i).2 hi] at hplace
      cases hplace
    have hsame : (entries.map fun e => (e.1, if e.1 = t then RelevanceMap.raise e.2 s else e.2)) = entries :=
      (List.map_congr_left fun e he => by rw [if_neg (habsent e he)]; rfl).trans (List.map_id _)
    rw [hsame]
    simpa only [raise, hplace] using h
  | some i =>
    simp only [raise, hplace]
    refine ⟨?_, hkeys.symm ▸ h.index⟩
    rw [h.list]
    refine List.ext_getElem? fun j => ?_
    rw [List.getElem?_modify, List.getElem?_map]
    cases hj : entries[j]? with
    | none => rfl
    | some e =>
      -- the table has one place, so the entry there is the only one to change
      have hat : i = j ↔ e.1 = t := by
        have hkey : (entries.map Prod.fst)[j]? = some e.1 := by rw [List.getElem?_map, hj]; rfl
        constructor
        · rintro rfl
          rw [(h.index t i).1 hplace] at hkey
          exact (Option.some.inj hkey).symm
        · rintro rfl
          rw [(h.index e.1 j).2 hkey] at hplace
          exact (Option.some.inj hplace).symm
      by_cases hij : i = j
      · simp [hij, hat.1 hij]
      · simp [hij, mt hat.2 hij]

/-- raising tables one after the other -/
theorem keeps_foldl_raise (scores : List (TableId × Float)) :
    ∀ {x : Indexed} {entries : List (TableId × Float)}, x.Keeps entries →
      (scores.foldl (fun x (t, s) => x.raise t s) x).Keeps
        (entries.map fun e =>
          (e.1, ((scores.filter fun s => s.1 = e.1).map Prod.snd).foldl RelevanceMap.raise e.2)) := by
  induction scores with
  | nil => intro x entries h; simpa using h
  | cons s scores ih =>
    intro x entries h
    have hrest := ih (keeps_raise h s.1 s.2)
    rw [List.map_map] at hrest
    rw [List.foldl_cons]
    convert hrest using 2
    funext e
    rw [Function.comp_apply, List.filter_cons]
    by_cases he : e.1 = s.1
    · simp [he]
    · simp [he, Ne.symm he]

theorem keeps_zeroed {u : StoredUniverse} {whole : CandidateUniverse} (h : u.Keeps whole.items) :
    (zeroed u).Keeps (RelevanceMap.zeroed whole).entries := by
  rw [zeroed, h.list]
  exact keeps_ofEntries (RelevanceMap.zeroed whole).nodup

theorem keeps_build {u : StoredUniverse} {whole : CandidateUniverse} (h : u.Keeps whole.items)
    (sources : List GroundTruth) : (build u sources).Keeps (RelevanceMap.build whole sources).entries := by
  have hbuild : build u sources =
      (sources.flatMap GroundTruth.certified).foldl (fun x (t, s) => x.raise t s) (zeroed u) := by
    rw [build, List.foldl_flatMap]
  have hkeeps := keeps_foldl_raise (sources.flatMap GroundTruth.certified) (keeps_zeroed h)
  rw [hbuild]
  convert hkeeps using 1
  simp only [RelevanceMap.build, RelevanceMap.zeroed, RelevanceMap.ofUniverse, List.map_map, Function.comp_def,
    RelevanceMap.peaks_getD]

theorem keeps_withSelfRelevance {m : RelevanceMap} (h : x.Keeps m.entries) (tables : List TableId) (score : Float) :
    (x.withSelfRelevance tables score).Keeps (m.withSelfRelevance tables score).entries := by
  have hraise : x.withSelfRelevance tables score =
      (tables.map fun t => (t, score)).foldl (fun x (t, s) => x.raise t s) x := by
    rw [withSelfRelevance, List.foldl_map]
  have hkeeps := keeps_foldl_raise (tables.map fun t => (t, score)) h
  rw [hraise]
  convert hkeeps using 1
  refine List.map_congr_left fun e _ => ?_
  -- a table that is named more than once is raised to the same score again
  have hcopies : (((tables.map fun t => (t, score)).filter fun s => s.1 = e.1).map Prod.snd) =
      List.replicate (tables.count e.1) score := by
    rw [List.filter_map, List.map_map, List.count, List.countP_eq_length_filter]
    exact List.map_const' ..
  obtain ⟨t, r⟩ := e
  dsimp only at hcopies ⊢
  rw [hcopies, RelevanceMap.foldl_raise_replicate, Std.TreeSet.contains_ofList]
  by_cases ht : t ∈ tables
  · rw [if_pos (List.contains_iff_mem.2 ht), if_neg (List.count_pos_iff.2 ht).ne']
  · rw [if_neg (mt List.contains_iff_mem.1 ht), if_pos (List.count_eq_zero.2 ht)]

theorem keeps_without {m : RelevanceMap} (h : x.Keeps m.entries) (excluded : List TableId) :
    (x.without excluded).Keeps (m.without excluded).entries := by
  rw [without, h.list]
  exact keeps_ofEntries (m.without excluded).nodup

end Indexed

/-! ## Aligning -/

/-- keys are answered through the index as through the list -/
theorem Indexed.Keeps.align_eq {y : Indexed} {p : PredictedScores} (h : y.Keeps p.ranked) (keys : List TableId) :
    .ofOptions (keys.map y.get?) = p.align keys := by
  rw [p.align_eq_ofOptions]
  exact congrArg _ (List.map_congr_left fun t _ => h.get?_eq p.nodup t)

/-- what is aligned does not depend on the form of the containers -/
theorem AlignedPair.prepareStored_eq {u : StoredUniverse} {whole : CandidateUniverse} (hu : u.Keeps whole.items)
    {x : Indexed} {m : RelevanceMap} (hx : x.Keeps m.entries) {y : Indexed} {p : PredictedScores}
    (hy : y.Keeps p.ranked) (excluded : List TableId) :
    prepareStored u x y excluded = prepare whole m p excluded := by
  have hwithout := Indexed.keeps_without hx excluded
  have hitems : (u.without excluded).items = (whole.without excluded).items :=
    (StoredUniverse.keeps_without hu whole.nodup excluded).list
  have htables : (x.without excluded).tables = (m.without excluded).tables := congrArg (List.map Prod.fst) hwithout.list
  have hvalues : (x.without excluded).values = (m.without excluded).values := congrArg (List.map Prod.snd) hwithout.list
  have hjudged : ∀ t, (x.without excluded).contains t =
      (Std.TreeSet.ofList (m.without excluded).tables).contains t := by
    intro t
    rw [Bool.eq_iff_iff, hwithout.contains_iff, Std.TreeSet.contains_ofList, List.contains_iff_mem]
    rfl
  simp only [prepareStored, prepare, StoredUniverse.length, CandidateUniverse.length, Indexed.length,
    RelevanceMap.length, hwithout.list, hitems, htables, hvalues, hjudged, hy.align_eq]
  rfl

/-! ## Sessions -/

section
variable {α β γ δ : Type} {R : α → β → Prop} {S : γ → δ → Prop}

theorem forall₂_getElem? {xs : List α} {ys : List β} (h : List.Forall₂ R xs ys) (i : Nat) :
    (xs[i]? = none ∧ ys[i]? = none) ∨ ∃ x y, xs[i]? = some x ∧ ys[i]? = some y ∧ R x y := by
  induction h generalizing i with
  | nil => exact .inl ⟨rfl, rfl⟩
  | cons hxy _ ih =>
    cases i with
    | zero => exact .inr ⟨_, _, rfl, rfl, hxy⟩
    | succ i => simpa using ih i

/-- what is made from the containers of one number is related, or nothing is made in either session -/
theorem forall₂_made {xs : List α} {ys : List β} (h : List.Forall₂ R xs ys) (i : Nat) {f : α → γ} {g : β → δ}
    (hfg : ∀ x y, R x y → S (f x) (g y)) : List.Forall₂ S (xs[i]?.map f).toList (ys[i]?.map g).toList := by
  rcases forall₂_getElem? h i with ⟨hx, hy⟩ | ⟨x, y, hx, hy, hxy⟩
  · rw [hx, hy]
    exact .nil
  · rw [hx, hy]
    exact .cons (hfg x y hxy) .nil

theorem exists_of_forall₂ {xs : List α} {ys : List β} (h : List.Forall₂ R xs ys) (x : α) (hx : x ∈ xs) :
    ∃ y, R x y := by
  obtain ⟨i, hi⟩ := List.mem_iff_getElem?.1 hx
  rcases forall₂_getElem? h i with ⟨hnone, -⟩ | ⟨x', y, hx', -, hxy⟩
  · rw [hi] at hnone
    cases hnone
  · rw [hi] at hx'
    cases hx'
    exact ⟨y, hxy⟩

theorem map_eq_of_forall₂ {xs : List α} {ys : List β} (h : List.Forall₂ R xs ys) {f : α → γ} {g : β → γ}
    (hfg : ∀ x y, R x y → f x = g y) : xs.map f = ys.map g := by
  induction h with
  | nil => rfl
  | cons hxy _ ih => rw [List.map_cons, List.map_cons, hfg _ _ hxy, ih]

theorem forall₂_modify {xs : List α} {ys : List β} (h : List.Forall₂ R xs ys) (i : Nat) {f : α → α} {g : β → β}
    (hfg : ∀ x y, R x y → R (f x) (g y)) : List.Forall₂ R (xs.modify i f) (ys.modify i g) := by
  induction h generalizing i with
  | nil => simp
  | cons hxy htail ih =>
    cases i with
    | zero => exact .cons (hfg _ _ hxy) htail
    | succ i => exact .cons hxy (ih i)

end

namespace Containers

/-- Every operation takes related containers to related ones. -/
structure Simulation {U M P U' M' P' : Type} (c : Containers U M P) (c' : Containers U' M' P') (RU : U → U' → Prop)
    (RM : M → M' → Prop) (RP : P → P' → Prop) : Prop where
  ofTables : ∀ tables, RU (c.ofTables tables) (c'.ofTables tables)
  labeled : ∀ page seed u u', RU u u' → RU (c.labeled page u seed) (c'.labeled page u' seed)
  narrowed : ∀ excluded u u', RU u u' → RU (c.narrowed u excluded) (c'.narrowed u' excluded)
  zeroed : ∀ u u', RU u u' → RM (c.zeroed u) (c'.zeroed u')
  built : ∀ sources u u', RU u u' → RM (c.built u sources) (c'.built u' sources)
  selfRelevant : ∀ tables score m m', RM m m' → RM (c.selfRelevant m tables score) (c'.selfRelevant m' tables score)
  without : ∀ excluded m m', RM m m' → RM (c.without m excluded) (c'.without m' excluded)
  ofScores : ∀ pairs, RP (c.ofScores pairs) (c'.ofScores pairs)
  push : ∀ table score p p', RP p p' → RP (c.push p table score) (c'.push p' table score)

/-- the containers of two sessions are related, number by number -/
structure Related {U M P U' M' P' : Type} (RU : U → U' → Prop) (RM : M → M' → Prop) (RP : P → P' → Prop)
    (s : ContainerSession U M P) (s' : ContainerSession U' M' P') : Prop where
  universes : List.Forall₂ RU s.universes s'.universes
  truths : List.Forall₂ RM s.truths s'.truths
  outputs : List.Forall₂ RP s.outputs s'.outputs

section
variable {U M P U' M' P' : Type} {c : Containers U M P} {c' : Containers U' M' P'} {RU : U → U' → Prop}
  {RM : M → M' → Prop} {RP : P → P' → Prop}

theorem Simulation.step (hsim : Simulation c c' RU RM RP) {s : ContainerSession U M P} {s' : ContainerSession U' M' P'}
    (h : Related RU RM RP s s') (op : ContainerOp) : Related RU RM RP (c.step s op) (c'.step s' op) := by
  obtain ⟨hu, hm, hp⟩ := h
  cases op with
  | ofTables tables => exact ⟨List.rel_append hu (.cons (hsim.ofTables tables) .nil), hm, hp⟩
  | labeled page corpus seed =>
    exact ⟨List.rel_append hu (forall₂_made hu corpus (hsim.labeled page seed)), hm, hp⟩
  | narrowed u excluded => exact ⟨List.rel_append hu (forall₂_made hu u (hsim.narrowed excluded)), hm, hp⟩
  | zeroed u => exact ⟨hu, List.rel_append hm (forall₂_made hu u hsim.zeroed), hp⟩
  | built u sources => exact ⟨hu, List.rel_append hm (forall₂_made hu u (hsim.built sources)), hp⟩
  | selfRelevant m tables score =>
    exact ⟨hu, List.rel_append hm (forall₂_made hm m (hsim.selfRelevant tables score)), hp⟩
  | without m excluded => exact ⟨hu, List.rel_append hm (forall₂_made hm m (hsim.without excluded)), hp⟩
  | ofScores pairs => exact ⟨hu, hm, List.rel_append hp (.cons (hsim.ofScores pairs) .nil)⟩
  | push p table score => exact ⟨hu, hm, forall₂_modify hp p (hsim.push table score)⟩

theorem Simulation.run (hsim : Simulation c c' RU RM RP) (ops : List ContainerOp) :
    Related RU RM RP (c.run ops) (c'.run ops) := by
  have hfold : ∀ (ops : List ContainerOp) (s : ContainerSession U M P) (s' : ContainerSession U' M' P'),
      Related RU RM RP s s' → Related RU RM RP (ops.foldl c.step s) (ops.foldl c'.step s') := by
    intro ops
    induction ops with
    | nil => exact fun s s' h => h
    | cons op ops ih => exact fun s s' h => ih _ _ (hsim.step h op)
  exact hfold ops _ _ ⟨.nil, .nil, .nil⟩

end

end Containers

/-! ## No relevance is negative -/

namespace RelevanceMap

/-- 0 or greater, so in particular a number -/
def Nonneg (m : RelevanceMap) : Prop := ∀ e ∈ m.entries, e.2 = 0.0 ∨ 0.0 < e.2

theorem raise_nonneg {r : Float} (h : r = 0.0 ∨ 0.0 < r) (s : Float) : raise r s = 0.0 ∨ 0.0 < raise r s := by
  unfold raise
  by_cases hlt : r < s
  · rw [if_pos hlt]
    rcases h with rfl | hr
    · exact .inr hlt
    · exact .inr (Double.lt_trans hr hlt)
  · rwa [if_neg hlt]

theorem nonneg_zeroed (u : CandidateUniverse) : (zeroed u).Nonneg := by
  intro e he
  obtain ⟨t, -, rfl⟩ := List.mem_map.1 he
  exact .inl rfl

theorem nonneg_build (u : CandidateUniverse) (sources : List GroundTruth) : (build u sources).Nonneg := by
  intro e he
  obtain ⟨t, -, rfl⟩ := List.mem_map.1 he
  dsimp only
  rw [peaks_getD]
  exact (foldl_raise _ 0.0).1.imp id And.left

theorem nonneg_withSelfRelevance {m : RelevanceMap} (h : m.Nonneg) (tables : List TableId) (score : Float) :
    (m.withSelfRelevance tables score).Nonneg := by
  intro e he
  obtain ⟨⟨t, r⟩, hmem, rfl⟩ := List.mem_map.1 he
  dsimp only
  split
  · exact raise_nonneg (h _ hmem) score
  · exact h _ hmem

theorem nonneg_without {m : RelevanceMap} (h : m.Nonneg) (excluded : List TableId) : (m.without excluded).Nonneg :=
  fun e he => h e (List.mem_of_mem_filter he)

end RelevanceMap

/-! ## Every session -/

/-- Every table is listed once, and what is asked is answered from the list. -/
structure StoredUniverse.Sound (u : StoredUniverse) : Prop where
  once : u.items.Nodup
  contains_iff : ∀ t, u.contains t = true ↔ t ∈ u.items
  length_eq : u.length = u.items.length

/-- Every table is listed once, the index has its place in the list and no other table, and what is asked is answered
from the list. -/
structure Indexed.Sound (x : Indexed) : Prop where
  once : x.tables.Nodup
  place_iff : ∀ (t : TableId) (i : Nat), x.places[t]? = some i ↔ x.tables[i]? = some t
  contains_iff : ∀ t, x.contains t = true ↔ t ∈ x.tables
  get?_iff : ∀ t v, x.get? t = some v ↔ ∃ i : Nat, x.tables[i]? = some t ∧ x.values[i]? = some v
  length_eq : x.length = x.tables.length

theorem StoredUniverse.Keeps.sound {u : StoredUniverse} {whole : CandidateUniverse} (h : u.Keeps whole.items) :
    u.Sound where
  once := h.list ▸ whole.nodup
  contains_iff t := h.list ▸ h.contains_iff t
  length_eq := rfl

theorem Indexed.Keeps.sound {x : Indexed} {entries : List (TableId × Float)} (h : x.Keeps entries)
    (hnodup : (entries.map Prod.fst).Nodup) : x.Sound where
  once := by
    rw [tables, h.list]
    exact hnodup
  place_iff := by
    rw [tables, h.list]
    exact h.index
  contains_iff := by
    rw [tables, h.list]
    exact h.contains_iff
  get?_iff t v := by
    have hplaces : IsIndexOf x.places x.tables := by
      rw [tables, h.list]
      exact h.index
    rw [get?, Option.bind_eq_bind, Option.bind_eq_some_iff]
    exact exists_congr fun i => and_congr_left' (hplaces t i)
  length_eq := (List.length_map _).symm

namespace Containers

/-- a map of relevance in both forms -/
def KeepsTruth (x : Indexed) (m : RelevanceMap) : Prop := x.Keeps m.entries ∧ m.Nonneg

/-- **The two forms correspond**, operation by operation, and no operation makes a relevance negative or no number. -/
theorem stored_simulates_listed : Simulation stored listed (fun u whole => u.Keeps whole.items) KeepsTruth
    (fun y p => y.Keeps p.ranked) where
  ofTables := StoredUniverse.keeps_ofList
  labeled page seed _ _ h := StoredUniverse.keeps_labeled h page seed
  narrowed excluded _ whole h := StoredUniverse.keeps_without h whole.nodup excluded
  zeroed _ whole h := ⟨Indexed.keeps_zeroed h, RelevanceMap.nonneg_zeroed whole⟩
  built sources _ whole h := ⟨Indexed.keeps_build h sources, RelevanceMap.nonneg_build whole sources⟩
  selfRelevant tables score _ _ h :=
    ⟨Indexed.keeps_withSelfRelevance h.1 tables score, RelevanceMap.nonneg_withSelfRelevance h.2 tables score⟩
  without excluded _ _ h := ⟨Indexed.keeps_without h.1 excluded, RelevanceMap.nonneg_without h.2 excluded⟩
  ofScores := Indexed.keeps_ofPairs
  push table score y p h := by
    change (y.push table score).Keeps (Distinct.firstBy Prod.fst (p.ranked ++ [(table, score)]))
    rw [Distinct.firstBy_concat, Distinct.firstBy_of_nodup Prod.fst p.nodup]
    exact Indexed.keeps_push h table score

end Containers

theorem RelevanceMap.Nonneg.values {m : RelevanceMap} (h : m.Nonneg) : ∀ r ∈ m.values, r = 0.0 ∨ 0.0 < r := by
  intro r hr
  obtain ⟨e, he, rfl⟩ := List.mem_map.1 hr
  exact h e he

/-- aligned vectors have one length, and the relevance stays what it was -/
theorem AlignedPair.prepare_eq_ok {u : CandidateUniverse} {m : RelevanceMap} {p : PredictedScores}
    {excluded : List TableId} {pair : AlignedPair} (h : prepare u m p excluded = .ok pair) :
    pair.relevance = (m.without excluded).values ∧ pair.relevance.length = pair.scores.length := by
  unfold prepare at h
  dsimp only at h
  split at h
  · cases h
  · split at h
    · cases h
    · cases h
      refine ⟨rfl, ?_⟩
      simp [RelevanceMap.values, RelevanceMap.tables, AlignedScores.length, PredictedScores.align,
        AlignedScores.ofOptions]

/-- no pair that is aligned with such a map is rejected for its shape -/
theorem AlignedPair.evaluate_prepare {u : CandidateUniverse} {m : RelevanceMap} (hm : m.Nonneg) {p : PredictedScores}
    {excluded : List TableId} {pair : AlignedPair} (h : prepare u m p excluded = .ok pair) (options : Metric.Options)
    (k : Nat) (e : Metric.Error) (he : Metric.evaluate options pair.relevance pair.scores k = .error e) :
    (∀ a b, e ≠ .lengthMismatch a b) ∧ ∀ r i, e ≠ .negativeRelevance r i := by
  obtain ⟨hrelevance, hlength⟩ := prepare_eq_ok h
  have hneg : ∀ r ∈ pair.relevance, ¬ r < 0.0 := by
    rw [hrelevance]
    intro r hr
    rcases (RelevanceMap.nonneg_without hm excluded).values r hr with rfl | hpos
    · decide
    · exact Double.not_lt_of_lt hpos
  rcases Metric.evaluate_eq_error hlength hneg he with (rfl | rfl | ⟨side, i, rfl⟩) | ⟨n, rfl | rfl⟩ <;>
    exact ⟨fun _ _ h => Metric.Error.noConfusion h, fun _ _ h => Metric.Error.noConfusion h⟩

namespace Containers

/-- **Sets and indices never drift from their lists.** After any session of operations, whatever tables and scores it is
about: every container lists a table at most once and answers from its list alone; every relevance is at least 0 and a
number; the containers hold what they hold as plain lists, and aligning any three of them has the same result; and the
metrics never reject what was aligned for vectors of two lengths or for a negative relevance. -/
theorem session_sound (ops : List ContainerOp) :
    (∀ u ∈ (stored.run ops).universes, u.Sound) ∧
    (∀ x ∈ (stored.run ops).truths, x.Sound ∧ ∀ r ∈ x.values, 0.0 ≤ r ∧ r.isNaN = false) ∧
    (∀ y ∈ (stored.run ops).outputs, y.Sound) ∧
    (stored.run ops).universes.map StoredUniverse.items = (listed.run ops).universes.map CandidateUniverse.items ∧
    (stored.run ops).truths.map Indexed.entries = (listed.run ops).truths.map RelevanceMap.entries ∧
    (stored.run ops).outputs.map Indexed.entries = (listed.run ops).outputs.map PredictedScores.ranked ∧
    (∀ (i j l : Nat) excluded, (do
        return AlignedPair.prepareStored (← (stored.run ops).universes[i]?) (← (stored.run ops).truths[j]?)
          (← (stored.run ops).outputs[l]?) excluded) = (do
        return AlignedPair.prepare (← (listed.run ops).universes[i]?) (← (listed.run ops).truths[j]?)
          (← (listed.run ops).outputs[l]?) excluded)) ∧
    ∀ u ∈ (stored.run ops).universes, ∀ x ∈ (stored.run ops).truths, ∀ y ∈ (stored.run ops).outputs,
      ∀ excluded pair, AlignedPair.prepareStored u x y excluded = .ok pair →
        ∀ options k e, Metric.evaluate options pair.relevance pair.scores k = .error e →
          (∀ a b, e ≠ .lengthMismatch a b) ∧ ∀ r i, e ≠ .negativeRelevance r i := by
  obtain ⟨huniverses, htruths, houtputs⟩ := stored_simulates_listed.run ops
  have huniverse := fun u hu => exists_of_forall₂ huniverses u hu
  have htruth := fun x hx => exists_of_forall₂ htruths x hx
  have houtput := fun y hy => exists_of_forall₂ houtputs y hy
  refine ⟨fun u hu => ?_, fun x hx => ?_, fun y hy => ?_, ?_, ?_, ?_, fun i j l excluded => ?_, ?_⟩
  · obtain ⟨whole, hkeeps⟩ := huniverse u hu
    exact hkeeps.sound
  · obtain ⟨m, hkeeps, hnonneg⟩ := htruth x hx
    refine ⟨hkeeps.sound m.nodup, fun r hr => ?_⟩
    rw [Indexed.values, hkeeps.list] at hr
    rcases hnonneg.values r hr with rfl | hpos
    · decide
    · exact ⟨Double.le_of_lt hpos, (Double.isNaN_of_lt hpos).2⟩
  · obtain ⟨p, hkeeps⟩ := houtput y hy
    exact hkeeps.sound p.nodup
  · exact map_eq_of_forall₂ huniverses fun u whole h => h.list
  · exact map_eq_of_forall₂ htruths fun x m h => h.1.list
  · exact map_eq_of_forall₂ houtputs fun y p h => h.list
  · rcases forall₂_getElem? huniverses i with ⟨hu, hu'⟩ | ⟨u, whole, hu, hu', hkeeps⟩
    · rw [hu, hu']
      rfl
    rcases forall₂_getElem? htruths j with ⟨hx, hx'⟩ | ⟨x, m, hx, hx', hkeeps', -⟩
    · rw [hu, hu', hx, hx']
      rfl
    rcases forall₂_getElem? houtputs l with ⟨hy, hy'⟩ | ⟨y, p, hy, hy', hkeeps''⟩
    · rw [hu, hu', hx, hx', hy, hy']
      rfl
    rw [hu, hu', hx, hx', hy, hy']
    exact congrArg some (AlignedPair.prepareStored_eq hkeeps hkeeps' hkeeps'' excluded)
  · intro u hu x hx y hy excluded pair hpair
    obtain ⟨whole, hkeeps⟩ := huniverse u hu
    obtain ⟨m, hkeeps', hnonneg⟩ := htruth x hx
    obtain ⟨p, hkeeps''⟩ := houtput y hy
    rw [AlignedPair.prepareStored_eq hkeeps hkeeps' hkeeps''] at hpair
    exact AlignedPair.evaluate_prepare hnonneg hpair

/-- titles with scores that are negative, no number, and 2 -/
def threeTitles : GroundTruth :=
  ⟨[("P", -1.0), ("Q", 0.0 / 0.0), ("R", 2.0)], [("P", ["a"]), ("Q", ["b"]), ("R", ["b", "d", "b"])]⟩

/-- a repeated table, an infinite relevance, and an engine that returns a table twice -/
def sixOps : List ContainerOp := [.ofTables ["a", "b", "a", "c"], .built 0 [threeTitles],
  .selfRelevant 0 ["c", "c"] (1.0 / 0.0), .ofScores [("b", 0.25), ("a", -1.0), ("b", 3.0)], .push 0 "c" 0.5,
  .narrowed 0 ["b"]]

/-- What is aligned without the first table is rejected because of the infinite relevance, at its new place. -/
theorem session_sound_six :
    ((stored.run sixOps).universes.map StoredUniverse.items, (stored.run sixOps).truths.map Indexed.entries,
        (stored.run sixOps).outputs.map Indexed.entries) =
      ([["a", "b", "c"], ["a", "c"]],
        [[("a", 0.0), ("b", 2.0), ("c", 0.0)], [("a", 0.0), ("b", 2.0), ("c", 1.0 / 0.0)]],
        [[("b", 0.25), ("a", -1.0), ("c", 0.5)]]) ∧
    ∃ u ∈ (stored.run sixOps).universes, ∃ x ∈ (stored.run sixOps).truths, ∃ y ∈ (stored.run sixOps).outputs,
      ∃ pair, AlignedPair.prepareStored u x y ["a"] = .ok pair ∧ pair.tables = ["b", "c"] ∧
        ∃ e, Metric.evaluate {} pair.relevance pair.scores 2 = .error e ∧ e = .nonFinite .relevance 1 ∧
          (∀ a b, e ≠ .lengthMismatch a b) ∧ ∀ r i, e ≠ .negativeRelevance r i := by
  let u : StoredUniverse := .ofList ["a", "b", "a", "c"]
  let x : Indexed := (Indexed.build u [threeTitles]).withSelfRelevance ["c", "c"] (1.0 / 0.0)
  let y : Indexed := (Indexed.ofPairs [("b", 0.25), ("a", -1.0), ("b", 3.0)]).push "c" 0.5
  have hu : u ∈ (stored.run sixOps).universes := List.mem_cons_self
  have hx : x ∈ (stored.run sixOps).truths := List.mem_cons_of_mem _ List.mem_cons_self
  have hy : y ∈ (stored.run sixOps).outputs := List.mem_cons_self
  have hpair : AlignedPair.prepareStored u x y ["a"] =
      .ok ⟨["b", "c"], [2.0, 1.0 / 0.0], ⟨[0.25, 0.5], [true, true]⟩⟩ := by
    decide +kernel
  have hrejected : Metric.evaluate {} [2.0, 1.0 / 0.0] ⟨[0.25, 0.5], [true, true]⟩ 2 =
      .error (.nonFinite .relevance 1) := by
    rfl
  obtain ⟨-, -, -, -, -, -, -, haccepted⟩ := session_sound sixOps
  refine ⟨by decide +kernel, u, hu, x, hx, y, hy, _, hpair, rfl, _, hrejected, rfl, ?_⟩
  exact haccepted u hu x hx y hy ["a"] _ hpair {} 2 _ hrejected

end Containers

end RankEval
