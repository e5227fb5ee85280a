/-
First occurrences, told of a list as a whole. A universe and an engine's output are made in one walk, which carries the
list of what it has kept and, beside it, the set of the tables seen or the index of their places. What comes out is told
without a walk: an element is kept iff its table does not occur before its place. So nothing depends on how a list is put
together, on whether tables are left out before or after the walk, or on how often it is walked through.

- `firsts_concat`, `firstBy_eq_firsts`: what one more element changes, and the whole walk.
- `firstBy_append`, `firstBy_filter`, `firstBy_firstBy`: one list after another, some keys left out, a second walk.
- `answers_ofOptions`: aligned scores, place by place.
- `firstSeen_listed`: the laws of first-seen order, for containers as lists.
- `FirstSeen.of_simulation`: what simulates containers with these laws and answers alike has the same laws.
- `first_seen_lawful`: the laws for lists, and for lists with sets and indices.
-/
import RankEval.Proofs.Candidates.Stored

namespace RankEval

/-! ## The walk -/

namespace Distinct

variable {α : Type}

/-- the elements of a list whose keys do not occur before their places, in order -/
def firsts (key : α → String) (xs : List α) : List α :=
  (xs.zipIdx.filter fun (x, i) => key x ∉ (xs.take i).map key).map Prod.fst

theorem firsts_concat (key : α → String) (xs : List α) (x : α) :
    firsts key (xs ++ [x]) = if key x ∈ xs.map key then firsts key xs else firsts key xs ++ [x] := by
  -- nothing changes before the place of the new element
  have hold : (xs.zipIdx.filter fun (y, i) => key y ∉ ((xs ++ [x]).take i).map key) =
      xs.zipIdx.filter fun (y, i) => key y ∉ (xs.take i).map key := by
    apply List.filter_congr
    rintro ⟨y, i⟩ hy
    have hi : i < xs.length := by simpa using List.snd_lt_of_mem_zipIdx hy
    simp only [List.take_append_of_le_length hi.le]
  unfold firsts
  rw [List.zipIdx_append, List.filter_append, hold, List.map_append]
  by_cases hx : key x ∈ xs.map key
  · simp [hx]
  · simp [hx]

/-- the walk keeps the first occurrences -/
theorem firstBy_eq_firsts (key : α → String) (xs : List α) : firstBy key xs = firsts key xs := by
  induction xs using List.reverseRecOn with
  | nil => rfl
  | append_singleton xs x ih => rw [firstBy_concat, firsts_concat, ih]

/-- of a second list, what the first one does not have is kept -/
theorem firstBy_append (key : α → String) (xs ys : List α) :
    firstBy key (xs ++ ys) = firstBy key xs ++ (firstBy key ys).filter fun y => key y ∉ xs.map key := by
  induction ys using List.reverseRecOn with
  | nil => simp [firstBy, keepFirst]
  | append_singleton ys y ih =>
    rw [← List.append_assoc, firstBy_concat, firstBy_concat, ih, List.map_append]
    by_cases hys : key y ∈ ys.map key
    · rw [if_pos (List.mem_append_right _ hys), if_pos hys]
    · rw [if_neg hys, List.filter_append, List.filter_cons, List.filter_nil, ← List.append_assoc]
      by_cases hxs : key y ∈ xs.map key
      · rw [if_pos (List.mem_append_left _ hxs), if_neg (by simpa using hxs), List.append_nil]
      · have hnew : key y ∉ xs.map key ++ ys.map key := fun h => (List.mem_append.1 h).elim hxs hys
        rw [if_neg hnew, if_pos (decide_eq_true hxs)]

/-- keys are left out before the walk or after it -/
theorem firstBy_filter (key : α → String) (p : String → Bool) (xs : List α) :
    firstBy key (xs.filter fun x => p (key x)) = (firstBy key xs).filter fun x => p (key x) := by
  induction xs using List.reverseRecOn with
  | nil => rfl
  | append_singleton xs x ih =>
    rw [List.filter_append, firstBy_concat]
    cases hp : p (key x) with
    | false =>
      simp only [List.filter_cons, hp, List.filter_nil, List.append_nil, Bool.false_eq_true, if_false, ih]
      split
      · rfl
      · simp [hp]
    | true =>
      -- the key comes before in what is left iff it comes before at all
      have hmem : key x ∈ (xs.filter fun x => p (key x)).map key ↔ key x ∈ xs.map key := by
        simp only [List.mem_map, List.mem_filter]
        constructor
        · rintro ⟨y, ⟨hy, -⟩, hkey⟩
          exact ⟨y, hy, hkey⟩
        · rintro ⟨y, hy, hkey⟩
          exact ⟨y, ⟨hy, hkey ▸ hp⟩, hkey⟩
      simp only [List.filter_cons, hp, List.filter_nil, if_true, firstBy_concat, hmem, ih]
      split
      · rfl
      · simp [hp]

/-- a second walk keeps everything -/
theorem firstBy_firstBy (key : α → String) (xs : List α) : firstBy key (firstBy key xs) = firstBy key xs :=
  firstBy_of_nodup key (nodup_keys_firstBy key xs)

end Distinct

/-! ## Aligned scores -/

/-- Every key is answered at its place: with the score of the first pair that has its table, or with 0 if there is none,
and it counts as scored iff there is one. -/
structure AlignedScores.Answers (a : AlignedScores) (pairs : List (TableId × Float)) (keys : List TableId) : Prop where
  length_values : a.values.length = keys.length
  length_scored : a.scored.length = keys.length
  value_at : ∀ (i : Nat) t, keys[i]? = some t → a.values[i]? = some ((pairs.lookup t).getD 0.0)
  scored_at : ∀ (i : Nat) t, keys[i]? = some t → (a.isScored i = true ↔ t ∈ pairs.map Prod.fst)
  scoredCount : a.scoredCount = keys.countP fun t => t ∈ pairs.map Prod.fst

theorem AlignedScores.answers_ofOptions (pairs : List (TableId × Float)) (keys : List TableId) :
    (ofOptions (keys.map fun t => pairs.lookup t)).Answers pairs keys where
  length_values := by simp [ofOptions]
  length_scored := by simp [ofOptions]
  value_at i t h := by simp [ofOptions, h]
  scored_at i t h := by
    rw [← Distinct.isSome_lookup_iff]
    simp [isScored, ofOptions, h]
  scoredCount := by
    rw [AlignedScores.scoredCount, ofOptions, List.countP_map, List.countP_map]
    apply List.countP_congr
    intro t _
    rw [decide_eq_true_iff, ← Distinct.isSome_lookup_iff]
    rfl

/-! ## Containers -/

namespace Containers

variable {U M P : Type}

/-- what is asked of universes and of an engine's output -/
structure Views (U P : Type) where
  tables : U → List TableId
  contains : U → TableId → Bool
  ranked : P → List (TableId × Float)
  aligned : P → List TableId → AlignedScores

def Views.listed : Views CandidateUniverse PredictedScores where
  tables := CandidateUniverse.items
  contains := CandidateUniverse.contains
  ranked := PredictedScores.ranked
  aligned := PredictedScores.align

def Views.stored : Views StoredUniverse Indexed where
  tables := StoredUniverse.items
  contains := StoredUniverse.contains
  ranked := Indexed.entries
  aligned y keys := .ofOptions (keys.map y.get?)

/-- two universes list the same tables in one order and contain the same tables -/
def Views.Same (v : Views U P) (u u' : U) : Prop :=
  v.tables u = v.tables u' ∧ ∀ t, v.contains u t = v.contains u' t

theorem Views.same_listed {u u' : CandidateUniverse} (h : u.items = u'.items) : Views.listed.Same u u' := by
  refine ⟨h, fun t => ?_⟩
  change u.items.contains t = u'.items.contains t
  rw [h]

/-- **The laws of first-seen order.** A universe lists the first occurrence of every table and contains what was listed;
making a universe of its tables changes nothing; a second list adds the tables that the first one does not have; tables
are left out of a universe or of the list it is made of. An engine's output lists the first pair of every table: the
tables are those of the universe of the first components, each with the first score it has. Keys are answered place by
place. -/
structure FirstSeen (c : Containers U M P) (v : Views U P) : Prop where
  tables_eq : ∀ xs, v.tables (c.ofTables xs) = Distinct.firsts id xs
  contains_iff : ∀ xs t, v.contains (c.ofTables xs) t = true ↔ t ∈ xs
  again : ∀ xs, v.Same (c.ofTables (v.tables (c.ofTables xs))) (c.ofTables xs)
  append : ∀ xs ys, v.tables (c.ofTables (xs ++ ys)) =
    v.tables (c.ofTables xs) ++ (v.tables (c.ofTables ys)).filter fun t => t ∉ xs
  narrowed : ∀ xs excluded,
    v.Same (c.narrowed (c.ofTables xs) excluded) (c.ofTables (xs.filter fun t => t ∉ excluded))
  ranked_eq : ∀ pairs, v.ranked (c.ofScores pairs) = Distinct.firsts Prod.fst pairs
  ranked_tables : ∀ pairs, (v.ranked (c.ofScores pairs)).map Prod.fst = v.tables (c.ofTables (pairs.map Prod.fst))
  ranked_score : ∀ pairs t s, (t, s) ∈ v.ranked (c.ofScores pairs) ↔ pairs.lookup t = some s
  aligned : ∀ pairs keys, (v.aligned (c.ofScores pairs) keys).Answers pairs keys

/-! ## The laws -/

theorem firstSeen_listed : FirstSeen listed .listed where
  tables_eq := Distinct.firstBy_eq_firsts id
  contains_iff xs t := by
    change (CandidateUniverse.ofList xs).items.contains t = true ↔ t ∈ xs
    rw [List.contains_iff_mem, CandidateUniverse.items_ofList, List.mem_eraseDups]
  again xs := by
    have hitems : Distinct.names (Distinct.names xs) = Distinct.names xs := Distinct.firstBy_firstBy id xs
    exact Views.same_listed hitems
  append xs ys := by
    have happend := Distinct.firstBy_append id xs ys
    rwa [List.map_id] at happend
  narrowed xs excluded := by
    have hfilter := Distinct.firstBy_filter id (fun t => t ∉ excluded) xs
    apply Views.same_listed
    exact ((CandidateUniverse.ofList xs).items_without excluded).trans hfilter.symm
  ranked_eq := Distinct.firstBy_eq_firsts Prod.fst
  ranked_tables pairs := by
    exact (Distinct.map_firstBy Prod.fst pairs).trans (CandidateUniverse.items_ofList _).symm
  ranked_score pairs t s := by
    rw [← Distinct.lookup_firstBy]
    exact (Distinct.lookup_eq_some_iff (Distinct.nodup_keys_firstBy Prod.fst pairs)).symm
  aligned pairs keys := by
    have haligned : (PredictedScores.ofList pairs).align keys = .ofOptions (keys.map fun t => pairs.lookup t) := by
      rw [PredictedScores.align_eq_ofOptions]
      exact congrArg _ (List.map_congr_left fun t _ => PredictedScores.get?_ofList pairs t)
    change ((PredictedScores.ofList pairs).align keys).Answers pairs keys
    rw [haligned]
    exact AlignedScores.answers_ofOptions pairs keys

/-! ## Both forms -/

/-- related universes and related outputs give the same answers -/
structure Views.Agree {U' P' : Type} (v : Views U P) (v' : Views U' P') (RU : U → U' → Prop) (RP : P → P' → Prop) :
    Prop where
  tables : ∀ u u', RU u u' → v.tables u = v'.tables u'
  contains : ∀ u u', RU u u' → ∀ t, v.contains u t = v'.contains u' t
  ranked : ∀ p p', RP p p' → v.ranked p = v'.ranked p'
  aligned : ∀ p p', RP p p' → ∀ keys, v.aligned p keys = v'.aligned p' keys

section
variable {U' M' P' : Type} {c : Containers U M P} {c' : Containers U' M' P'} {v : Views U P} {v' : Views U' P'}
  {RU : U → U' → Prop} {RM : M → M' → Prop} {RP : P → P' → Prop}

theorem Views.Agree.same (h : v.Agree v' RU RP) {u₁ u₂ : U} {u₁' u₂' : U'} (h₁ : RU u₁ u₁') (h₂ : RU u₂ u₂')
    (hsame : v'.Same u₁' u₂') : v.Same u₁ u₂ := by
  obtain ⟨htables, hcontains⟩ := hsame
  refine ⟨?_, fun t => ?_⟩
  · rw [h.tables _ _ h₁, h.tables _ _ h₂, htables]
  · rw [h.contains _ _ h₁, h.contains _ _ h₂, hcontains]

/-- the laws only speak of answers, so they pass to what simulates -/
theorem FirstSeen.of_simulation (h : FirstSeen c' v') (hsim : Simulation c c' RU RM RP) (hagree : v.Agree v' RU RP) :
    FirstSeen c v := by
  have htables (xs : List TableId) : v.tables (c.ofTables xs) = v'.tables (c'.ofTables xs) :=
    hagree.tables _ _ (hsim.ofTables xs)
  have hranked (pairs : List (TableId × Float)) : v.ranked (c.ofScores pairs) = v'.ranked (c'.ofScores pairs) :=
    hagree.ranked _ _ (hsim.ofScores pairs)
  constructor
  case tables_eq => simpa only [htables] using h.tables_eq
  case contains_iff =>
    intro xs t
    rw [hagree.contains _ _ (hsim.ofTables xs), h.contains_iff]
  case again =>
    intro xs
    rw [htables]
    exact hagree.same (hsim.ofTables _) (hsim.ofTables xs) (h.again xs)
  case append => simpa only [htables] using h.append
  case narrowed =>
    intro xs excluded
    exact hagree.same (hsim.narrowed excluded _ _ (hsim.ofTables xs)) (hsim.ofTables _) (h.narrowed xs excluded)
  case ranked_eq => simpa only [hranked] using h.ranked_eq
  case ranked_tables => simpa only [hranked, htables] using h.ranked_tables
  case ranked_score => simpa only [hranked] using h.ranked_score
  case aligned =>
    intro pairs keys
    rw [hagree.aligned _ _ (hsim.ofScores pairs)]
    exact h.aligned pairs keys

end

/-- sets and indices answer as their lists do -/
theorem stored_agrees_listed : Views.stored.Agree .listed (fun u whole => u.Keeps whole.items)
    fun y p => y.Keeps p.ranked where
  tables _ _ h := h.list
  contains u whole h t := by
    rw [Bool.eq_iff_iff]
    exact (h.contains_iff t).trans List.contains_iff_mem.symm
  ranked _ _ h := h.list
  aligned _ _ h := h.align_eq

/-- **Keeping what comes first is lawful**, in either form of the containers and for lists with any repeats. Making a
universe keeps the first occurrence of every table and nothing else, in order; it does nothing to a universe; it commutes
with appending lists and with leaving tables out. An engine's output has the tables of a universe, each with its first
score; and keys, of which any may be asked for again, are answered place by place from what was returned. -/
theorem first_seen_lawful : FirstSeen listed .listed ∧ FirstSeen stored .stored := by
  have hstored : FirstSeen stored .stored := firstSeen_listed.of_simulation stored_simulates_listed stored_agrees_listed
  exact ⟨firstSeen_listed, hstored⟩

/-- A key that is asked for twice counts twice, and one with score 0 counts as scored. -/
example :
    let output := PredictedScores.ofList [("a", 2.0), ("b", 0.0), ("a", 9.0)]
    let answers := output.align ["b", "z", "a", "b"]
    answers = ⟨[0.0, 0.0, 2.0, 0.0], [true, false, true, true]⟩ ∧ answers.scoredCount = 3 := by
  decide +kernel

end Containers

end RankEval
