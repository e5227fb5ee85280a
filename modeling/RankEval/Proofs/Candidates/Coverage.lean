/-
When relevance and scores can be put side by side. Only two lengths and one inclusion are checked, and the map of
relevance need not have been made for the universe. As neither side lists a table twice, this is enough: nothing is
aligned unless both sides cover the same tables, and everything that is aligned stands in its place.

- `toFinset_eq_iff`: the pigeonhole behind it, for lists without repeats.
- `isAligned_left`: what is left of the map of relevance, with the engine's answers, is aligned.
- `prepare_specified`: when two sides are aligned and how, and what is reported otherwise.
- `prepare_specified_of_two_universes`: two universes that only differ in tables that are left out.
-/
import Mathlib.Data.List.Perm.Subperm
import RankEval.Proofs.Candidates.Stored

namespace RankEval

/-! ## What is left of both sides -/

namespace RelevanceMap

variable {m : RelevanceMap} {excluded : List TableId} {t : TableId}

theorem entries_without (m : RelevanceMap) (excluded : List TableId) :
    (m.without excluded).entries = m.entries.filter fun e => e.1 ∉ excluded := by
  refine List.filter_congr fun e _ => ?_
  obtain ⟨t, r⟩ := e
  dsimp only
  rw [Std.TreeSet.contains_ofList]
  simp

theorem tables_without (m : RelevanceMap) (excluded : List TableId) :
    (m.without excluded).tables = m.tables.filter fun t => t ∉ excluded := by
  rw [tables, entries_without, tables, List.filter_map]
  rfl

/-- leaving tables out changes nothing about the others -/
theorem get?_without (ht : t ∉ excluded) : (m.without excluded).get? t = m.get? t := by
  ext v
  have hkept : (t, v) ∈ (m.without excluded).entries ↔ (t, v) ∈ m.entries := by
    rw [entries_without, List.mem_filter]
    exact and_iff_left (decide_eq_true ht)
  rw [get?, get?, Distinct.lookup_eq_some_iff (m.without excluded).nodup, Distinct.lookup_eq_some_iff m.nodup, hkept]

/-- the value at a place is that of the table at this place -/
theorem getElem?_values {i : Nat} (h : m.tables[i]? = some t) : m.values[i]? = m.get? t := by
  rw [tables, List.getElem?_map, Option.map_eq_some_iff] at h
  obtain ⟨e, he, rfl⟩ := h
  rw [values, List.getElem?_map, he, get?, (Distinct.lookup_eq_some_iff m.nodup).2 (List.mem_of_getElem? he)]
  rfl

end RelevanceMap

/-- a table has a score iff it was returned -/
theorem PredictedScores.isSome_get?_iff (p : PredictedScores) (t : TableId) :
    (p.get? t).isSome = true ↔ t ∈ p.tables := Distinct.isSome_lookup_iff

namespace AlignedPair

/-! ## The two checks -/

/-- **Pigeonhole.** Of two lists without repeats, both have the same members iff they have one length and one contains
the other. -/
theorem toFinset_eq_iff {xs ys : List TableId} (hxs : xs.Nodup) (hys : ys.Nodup) :
    xs.toFinset = ys.toFinset ↔ xs.length = ys.length ∧ ∀ t ∈ xs, t ∈ ys := by
  constructor
  · intro h
    have hmem : ∀ t, t ∈ xs ↔ t ∈ ys := fun t => by rw [← List.mem_toFinset, h, List.mem_toFinset]
    exact ⟨((List.perm_ext_iff_of_nodup hxs hys).2 hmem).length_eq, fun t => (hmem t).1⟩
  · rintro ⟨hlength, hsubset⟩
    have hperm : xs.Perm ys := (List.subperm_of_subset hxs hsubset).perm_of_length_le hlength.ge
    exact List.toFinset_eq_of_perm _ _ hperm

section
variable (u : CandidateUniverse) (m : RelevanceMap) (p : PredictedScores) (excluded : List TableId)

/-- universe and map of relevance cover the same tables, apart from those that are left out -/
def SameTables : Prop := u.items.toFinset \ excluded.toFinset = m.tables.toFinset \ excluded.toFinset

instance : Decidable (SameTables u m excluded) := inferInstanceAs (Decidable (_ = _))

/-- The pair lists what is left of the map of relevance, in its order, with the engine's answer for every table. -/
structure IsAligned (pair : AlignedPair) : Prop where
  tables : pair.tables = m.tables.filter fun t => t ∉ excluded
  once : pair.tables.Nodup
  length_relevance : pair.relevance.length = pair.tables.length
  length_scores : pair.scores.values.length = pair.tables.length
  length_flags : pair.scores.scored.length = pair.tables.length
  relevance_at : ∀ (i : Nat) t, pair.tables[i]? = some t → pair.relevance[i]? = m.get? t
  score_at : ∀ (i : Nat) t, pair.tables[i]? = some t → pair.scores.values[i]? = some ((p.get? t).getD 0.0)
  scored_at : ∀ (i : Nat) t, pair.tables[i]? = some t → (pair.scores.isScored i = true ↔ t ∈ p.tables)

/-- What is wrong when the sides differ: their sizes or, if those are equal, that a table has no relevance. The first
such table of the universe is reported. -/
inductive HasMismatch : Mismatch → Prop
  | sizes (h : (u.without excluded).length ≠ (m.without excluded).length) :
    HasMismatch (.sizes (u.without excluded).length (m.without excluded).length)
  | unjudged (t : TableId) (before after : List TableId)
    (hsizes : (u.without excluded).length = (m.without excluded).length)
    (hsplit : (u.without excluded).items = before ++ t :: after) (ht : t ∉ m.tables)
    (hbefore : ∀ s ∈ before, s ∈ m.tables) : HasMismatch (.unjudged t)

variable {u m p excluded}

theorem toFinset_filter_not_mem (tables : List TableId) :
    (tables.filter fun t => t ∉ excluded).toFinset = tables.toFinset \ excluded.toFinset := by
  ext t
  simp

/-- the two checks decide whether both sides cover the same tables -/
theorem sameTables_iff : SameTables u m excluded ↔
    (u.without excluded).length = (m.without excluded).length ∧ ∀ t ∈ (u.without excluded).items, t ∈ m.tables := by
  have honce : (m.without excluded).tables.Nodup := (m.without excluded).nodup
  have hlength : (m.without excluded).tables.length = (m.without excluded).length := List.length_map _
  rw [SameTables, ← toFinset_filter_not_mem, ← toFinset_filter_not_mem, ← u.items_without, ← m.tables_without,
    toFinset_eq_iff (u.without excluded).nodup honce, hlength]
  refine and_congr_right fun _ => forall₂_congr fun t ht => ?_
  -- what is left of the universe is not excluded
  rw [u.items_without, List.mem_filter] at ht
  rw [m.tables_without, List.mem_filter]
  exact and_iff_left ht.2

/-- aligning is made up of the two checks and what is left of the map of relevance -/
theorem prepare_eq_checks (u : CandidateUniverse) (m : RelevanceMap) (p : PredictedScores) (excluded : List TableId) :
    prepare u m p excluded =
      if (u.without excluded).length ≠ (m.without excluded).length then
        .error (.sizes (u.without excluded).length (m.without excluded).length)
      else match (u.without excluded).items.find? fun t => t ∉ m.tables with
        | some stray => .error (.unjudged stray)
        | none => .ok ⟨(m.without excluded).tables, (m.without excluded).values,
          p.align (m.without excluded).tables⟩ := by
  have hstray : (u.without excluded).items.find? (fun t =>
      !(Std.TreeSet.ofList (m.without excluded).tables).contains t) =
        (u.without excluded).items.find? fun t => t ∉ m.tables := by
    refine List.find?_congr fun t ht => ?_
    rw [u.items_without, List.mem_filter] at ht
    have hkept : t ∈ (m.without excluded).tables ↔ t ∈ m.tables := by
      rw [m.tables_without, List.mem_filter]
      exact and_iff_left ht.2
    rw [Std.TreeSet.contains_ofList, Bool.eq_iff_iff, Bool.not_eq_true', decide_eq_true_iff, ← hkept,
      ← Bool.not_eq_true, List.contains_iff_mem]
  exact hstray ▸ rfl

/-! ## What is aligned -/

theorem isAligned_left (m : RelevanceMap) (p : PredictedScores) (excluded : List TableId) :
    IsAligned m p excluded ⟨(m.without excluded).tables, (m.without excluded).values,
      p.align (m.without excluded).tables⟩ where
  tables := m.tables_without excluded
  once := (m.without excluded).nodup
  length_relevance := by simp [RelevanceMap.values, RelevanceMap.tables]
  length_scores := by simp [PredictedScores.align_eq]
  length_flags := by simp [PredictedScores.align_eq]
  relevance_at i t h := by
    have hmem : t ∈ m.tables.filter fun t => t ∉ excluded := m.tables_without excluded ▸ List.mem_of_getElem? h
    rw [← RelevanceMap.get?_without (of_decide_eq_true (List.mem_filter.1 hmem).2)]
    exact RelevanceMap.getElem?_values h
  score_at i t h := by
    dsimp only at h ⊢
    rw [PredictedScores.align_eq, List.getElem?_map, h]
    rfl
  scored_at i t h := by
    dsimp only at h ⊢
    rw [AlignedScores.isScored, PredictedScores.align_eq, List.getElem?_map, h]
    exact p.isSome_get?_iff t

/-- what is aligned is determined, place by place -/
theorem IsAligned.unique {pair pair' : AlignedPair} (h : IsAligned m p excluded pair)
    (h' : IsAligned m p excluded pair') : pair = pair' := by
  obtain ⟨tables, relevance, values, flags⟩ := pair
  obtain ⟨tables', relevance', values', flags'⟩ := pair'
  obtain rfl : tables = tables' := h.tables.trans h'.tables.symm
  have hat : ∀ i < tables.length, ∃ t, tables[i]? = some t := fun i hi => ⟨_, List.getElem?_eq_getElem hi⟩
  obtain rfl : relevance = relevance' := by
    refine List.ext_getElem? fun i => ?_
    by_cases hi : i < tables.length
    · obtain ⟨t, ht⟩ := hat i hi
      rw [h.relevance_at i t ht, h'.relevance_at i t ht]
    · rw [List.getElem?_eq_none (h.length_relevance.le.trans (not_lt.1 hi)),
        List.getElem?_eq_none (h'.length_relevance.le.trans (not_lt.1 hi))]
  obtain rfl : values = values' := by
    refine List.ext_getElem? fun i => ?_
    by_cases hi : i < tables.length
    · obtain ⟨t, ht⟩ := hat i hi
      exact (h.score_at i t ht).trans (h'.score_at i t ht).symm
    · exact (List.getElem?_eq_none (h.length_scores.le.trans (not_lt.1 hi))).trans
        (List.getElem?_eq_none (h'.length_scores.le.trans (not_lt.1 hi))).symm
  obtain rfl : flags = flags' := by
    refine List.ext_getElem (h.length_flags.trans h'.length_flags.symm) fun i hi hi' => ?_
    obtain ⟨t, ht⟩ := hat i (hi.trans_eq h.length_flags)
    have hflag := (h.scored_at i t ht).trans (h'.scored_at i t ht).symm
    simpa [AlignedScores.isScored, hi, hi'] using hflag
  rfl

/-! ## All results -/

theorem find?_stray_eq_none_iff : (u.without excluded).items.find? (fun t => t ∉ m.tables) = none ↔
    ∀ t ∈ (u.without excluded).items, t ∈ m.tables := by
  simp [List.find?_eq_none]

theorem prepare_eq_ok_iff (pair : AlignedPair) :
    prepare u m p excluded = .ok pair ↔ SameTables u m excluded ∧ IsAligned m p excluded pair := by
  rw [sameTables_iff, prepare_eq_checks, ← find?_stray_eq_none_iff]
  split_ifs with hsizes
  · exact iff_of_false nofun fun h => hsizes h.1.1
  · have haligned := isAligned_left m p excluded
    cases hfind : (u.without excluded).items.find? fun t => t ∉ m.tables with
    | some stray => exact iff_of_false nofun fun h => nomatch h.1.2
    | none =>
      constructor
      · rintro ⟨⟩
        exact ⟨⟨not_not.1 hsizes, rfl⟩, haligned⟩
      · rintro ⟨-, h⟩
        rw [haligned.unique h]

theorem prepare_eq_error_iff (mismatch : Mismatch) :
    prepare u m p excluded = .error mismatch ↔ HasMismatch u m excluded mismatch := by
  rw [prepare_eq_checks]
  constructor
  · intro h
    split_ifs at h with hsizes
    · cases h
      exact .sizes hsizes
    · cases hfind : (u.without excluded).items.find? fun t => t ∉ m.tables with
      | none =>
        rw [hfind] at h
        cases h
      | some stray =>
        rw [hfind] at h
        cases h
        obtain ⟨hstray, before, after, hsplit, hbefore⟩ := List.find?_eq_some_iff_append.1 hfind
        refine .unjudged stray before after (not_not.1 hsizes) hsplit (of_decide_eq_true hstray) fun s hs => ?_
        simpa using hbefore s hs
  · intro h
    cases h with
    | sizes hsizes => rw [if_pos hsizes]
    | unjudged t before after hsizes hsplit ht hbefore =>
      have hfind : (u.without excluded).items.find? (fun t => t ∉ m.tables) = some t := by
        refine List.find?_eq_some_iff_append.2 ⟨decide_eq_true ht, before, after, hsplit, fun s hs => ?_⟩
        simpa using hbefore s hs
      rw [if_neg (not_not.2 hsizes), hfind]

end

/-- **When two sides are aligned.** A universe and a map of relevance, made for it or not, are aligned iff they cover
the same tables but for those that are left out. Then the pair lists the tables of the map that are left, each once and
in the map's order, each with its relevance, its score or 0, and whether it has a score. Otherwise the mismatch is
reported. All this is the same if the containers are asked through their sets and indices. -/
theorem prepare_specified (u : CandidateUniverse) (m : RelevanceMap) (p : PredictedScores) (excluded : List TableId) :
    ((∃ pair, prepare u m p excluded = .ok pair) ↔ SameTables u m excluded) ∧
      (∀ pair, prepare u m p excluded = .ok pair ↔ SameTables u m excluded ∧ IsAligned m p excluded pair) ∧
      (∀ mismatch, prepare u m p excluded = .error mismatch ↔ HasMismatch u m excluded mismatch) ∧
      ∀ (su : StoredUniverse) (x y : Indexed), su.Keeps u.items → x.Keeps m.entries → y.Keeps p.ranked →
        prepareStored su x y excluded = prepare u m p excluded := by
  refine ⟨?_, prepare_eq_ok_iff, prepare_eq_error_iff, fun su x y hu hx hy => prepareStored_eq hu hx hy excluded⟩
  constructor
  · rintro ⟨pair, h⟩
    exact ((prepare_eq_ok_iff pair).1 h).1
  · intro h
    exact ⟨_, (prepare_eq_ok_iff _).2 ⟨h, isAligned_left m p excluded⟩⟩

/-- a page with one relevant table -/
def onePage : GroundTruth := ⟨[("P", 0.5)], [("P", ["a"])]⟩

/-- Two universes in different orders that share all tables but one each. Only if both of those are left out is anything
aligned, in the order of the map of relevance. -/
theorem prepare_specified_of_two_universes :
    let u := CandidateUniverse.ofList ["a", "b", "x", "b"]
    let judged := CandidateUniverse.ofList ["y", "b", "a"]
    let m := RelevanceMap.build judged [onePage]
    let p := PredictedScores.ofList [("z", 9.0), ("a", -0.5), ("a", 3.0)]
    let pair : AlignedPair := ⟨["b", "a"], [0.0, 0.5], ⟨[0.0, -0.5], [false, true]⟩⟩
    SameTables u m ["x", "y"] ∧ IsAligned m p ["x", "y"] pair ∧
      prepareStored (.ofList ["a", "b", "x", "b"]) (.build (.ofList ["y", "b", "a"]) [onePage])
        (.ofPairs [("z", 9.0), ("a", -0.5), ("a", 3.0)]) ["x", "y"] = .ok pair ∧
      HasMismatch u m ["x"] (.sizes 2 3) ∧ HasMismatch u m [] (.unjudged "x") := by
  intro u judged m p pair
  obtain ⟨-, hok, -, hstored⟩ := prepare_specified u m p ["x", "y"]
  have hpair : prepare u m p ["x", "y"] = .ok pair := by decide +kernel
  obtain ⟨hsame, haligned⟩ := (hok pair).1 hpair
  refine ⟨hsame, haligned, ?_, ?_, ?_⟩
  · have hjudged : (StoredUniverse.ofList ["y", "b", "a"]).Keeps judged.items := StoredUniverse.keeps_ofList _
    rw [← hpair]
    exact hstored _ _ _ (StoredUniverse.keeps_ofList _) (Indexed.keeps_build hjudged [onePage])
      (Indexed.keeps_ofPairs _)
  · exact ((prepare_specified u m p ["x"]).2.2.1 _).1 (by decide +kernel)
  · exact ((prepare_specified u m p []).2.2.1 _).1 (by decide +kernel)

end AlignedPair

end RankEval
