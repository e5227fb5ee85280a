/-
Related titles, page addresses and tables, joined. Titles have scores, a title with the common start in front is the
address of a page, and the tables of a page may be listed in several places. The join goes through two indices that
grow by appending; nothing is lost in either of them, and nothing is added.

- `mem_gather`, `getElem?_gather`: an index of grants has the keys that were granted something, with all of it in order.
- `filter_key_eq_singleton`: in a list without repeated keys, a key has one entry.
- `certifies_groundTruth`: what the titles vouch for, by titles and pages.
- `groundTruth_joins`: the scores, the index and the map of relevance that are made from them.
-/
import RankEval.Proofs.Candidates.Merging

namespace RankEval

/-! ## An index that grows -/

namespace GroundTruth

theorem mem_foldl_gather (key : String) (grants : List (String × List TableId)) :
    ∀ index : Std.TreeMap String (List TableId),
      key ∈ grants.foldl (fun index grant => index.insert grant.1 (index.getD grant.1 [] ++ grant.2)) index ↔
        key ∈ index ∨ key ∈ grants.map Prod.fst := by
  induction grants with
  | nil => simp
  | cons g grants ih =>
    intro index
    rw [List.foldl_cons, ih, Std.TreeMap.mem_insert, Std.LawfulEqOrd.compare_eq_iff_eq, List.map_cons, List.mem_cons,
      eq_comm, or_comm (a := key = g.1), or_assoc]

theorem mem_gather (grants : List (String × List TableId)) (key : String) :
    key ∈ gather grants ↔ key ∈ grants.map Prod.fst := by
  rw [gather, mem_foldl_gather]
  simp

/-- A key has what it was granted, in order. -/
theorem getElem?_gather (grants : List (String × List TableId)) (key : String) :
    (gather grants)[key]? =
      if key ∈ grants.map Prod.fst then some ((grants.filter fun g => g.1 = key).flatMap Prod.snd) else none := by
  split_ifs with hkey
  · rw [Std.TreeMap.getElem?_eq_some_getD ((mem_gather grants key).2 hkey), getD_gather]
  · exact Std.TreeMap.getElem?_eq_none (mt (mem_gather grants key).1 hkey)

end GroundTruth

/-- in a list without repeated keys, a key has one entry -/
theorem filter_key_eq_singleton {α : Type} {entries : List (String × α)} (h : (entries.map Prod.fst).Nodup)
    {key : String} {a : α} (hmem : (key, a) ∈ entries) : (entries.filter fun e => e.1 = key) = [(key, a)] := by
  obtain ⟨before, after, rfl⟩ := List.append_of_mem hmem
  rw [List.map_append, List.map_cons, List.nodup_middle, List.nodup_cons, ← List.map_append] at h
  have hother : ∀ e ∈ before ++ after, ¬ decide (e.1 = key) = true := by
    intro e he heq
    have hkey : e.1 ∈ (before ++ after).map Prod.fst := List.mem_map_of_mem he
    exact h.1 (of_decide_eq_true heq ▸ hkey)
  rw [List.filter_append, List.filter_cons_of_pos (by simp),
    List.filter_eq_nil_iff.2 fun e he => hother e (List.mem_append_left _ he),
    List.filter_eq_nil_iff.2 fun e he => hother e (List.mem_append_right _ he), List.nil_append]

/-! ## The join -/

namespace Inputs.PageTables

/-- the tables that are listed for an address, in the order of the list -/
def listedAt (pairs : List (String × List TableId)) (address : String) : List TableId :=
  (pairs.filter fun pair => pair.1 = address).flatMap Prod.snd

/-- some title has that score, and some place lists the table for the title's page -/
def VouchedBy (titles : Std.TreeMap String Float) (pairs : List (String × List TableId)) (t : TableId) (s : Float) :
    Prop :=
  ∃ title : String, titles[title]? = some s ∧ ∃ pair ∈ pairs, pair.1 = addressStart ++ title ∧ t ∈ pair.2

section
variable (titles : Std.TreeMap String Float) (pairs : List (String × List TableId))

theorem tablesOf_ofList (address : String) : (ofList pairs).tablesOf address = listedAt pairs address :=
  GroundTruth.getD_gather pairs address

theorem nodup_titles : (titles.toList.map Prod.fst).Nodup := by
  refine List.pairwise_map.2 (Std.TreeMap.distinct_keys_toList.imp fun {a b} hne => ?_)
  rwa [Std.LawfulEqOrd.compare_eq_iff_eq] at hne

/-- The titles vouch for the tables that are listed for their pages, and for no others. -/
theorem certifies_groundTruth (t : TableId) (s : Float) :
    ((ofList pairs).groundTruth titles.toList).Certifies t s ↔ VouchedBy titles pairs t s := by
  have hlisted : ∀ title : String, t ∈ (ofList pairs).tablesOf (addressStart ++ title) ↔
      ∃ pair ∈ pairs, pair.1 = addressStart ++ title ∧ t ∈ pair.2 := by
    intro title
    simp only [tablesOf_ofList, listedAt, List.mem_flatMap, List.mem_filter, decide_eq_true_eq, and_assoc]
  rw [GroundTruth.Certifies, groundTruth_eq]
  constructor
  · rintro ⟨title, hscore, grant, hgrant, rfl, ht⟩
    obtain ⟨e, -, rfl⟩ := List.mem_map.1 hgrant
    exact ⟨e.1, Std.TreeMap.mem_toList_iff_getElem?_eq_some.1 hscore, (hlisted e.1).1 ht⟩
  · rintro ⟨title, hscore, hpair⟩
    have hmem := Std.TreeMap.mem_toList_iff_getElem?_eq_some.2 hscore
    exact ⟨title, hmem, _, List.mem_map_of_mem hmem, rfl, (hlisted title).2 hpair⟩

/-- every title has the tables of its page, once -/
theorem getElem?_gather_groundTruth (title : String) :
    (GroundTruth.gather ((ofList pairs).groundTruth titles.toList).grants)[title]? =
      titles[title]?.map fun _ => listedAt pairs (addressStart ++ title) := by
  have hkeys : (((titles.toList.map fun e => (e.1, (ofList pairs).tablesOf (addressStart ++ e.1))).map Prod.fst)) =
      titles.toList.map Prod.fst := List.map_map
  rw [groundTruth_eq, GroundTruth.getElem?_gather]
  dsimp only
  rw [hkeys]
  cases hscore : titles[title]? with
  | none =>
    refine if_neg fun hmem => ?_
    obtain ⟨⟨title', s⟩, he, rfl⟩ := List.mem_map.1 hmem
    rw [Std.TreeMap.mem_toList_iff_getElem?_eq_some.1 he] at hscore
    cases hscore
  | some s =>
    have hmem := Std.TreeMap.mem_toList_iff_getElem?_eq_some.2 hscore
    have hentry : (title, (ofList pairs).tablesOf (addressStart ++ title)) ∈
        titles.toList.map fun e => (e.1, (ofList pairs).tablesOf (addressStart ++ e.1)) := List.mem_map_of_mem hmem
    rw [if_pos (List.mem_map_of_mem hmem), filter_key_eq_singleton (hkeys ▸ nodup_titles titles) hentry]
    simp [tablesOf_ofList]

end

/-- **Titles are joined to tables without loss.** Whatever titles with scores there are, and wherever the tables of a
page are listed: the scores are those of the titles, in the order of the titles; exactly the titles have an entry in the
index of what they vouch for, and it has all tables that are listed for the title's page, in the order of the list; and
the value of a table of the universe is the greatest of 0 and those scores that are numbers, over all titles for whose
page some place lists the table. -/
theorem groundTruth_joins (titles : Std.TreeMap String Float) (pairs : List (String × List TableId))
    (u : CandidateUniverse) :
    ((ofList pairs).groundTruth titles.toList).scores = titles.toList ∧
    (titles.toList.map Prod.fst).Pairwise (· < ·) ∧
    (∀ title : String, (GroundTruth.gather ((ofList pairs).groundTruth titles.toList).grants)[title]? =
      titles[title]?.map fun _ => listedAt pairs (addressStart ++ title)) ∧
    (RelevanceMap.build u [(ofList pairs).groundTruth titles.toList]).tables = u.items ∧
    ∀ t, ∃ m, IsLargest (VouchedBy titles pairs t) m ∧
      (RelevanceMap.build u [(ofList pairs).groundTruth titles.toList]).get? t = if t ∈ u.items then some m else none := by
  refine ⟨by rw [groundTruth_eq], ?sorted, getElem?_gather_groundTruth titles pairs, ?tables, fun t => ?value⟩
  case sorted =>
    refine List.pairwise_map.2 (Std.TreeMap.ordered_keys_toList.imp fun {a b} hlt => ?_)
    exact compareOfLessAndEq_eq_lt.1 hlt
  case tables =>
    rw [RelevanceMap.tables, RelevanceMap.build, RelevanceMap.ofUniverse, List.map_map, Function.comp_def, List.map_id']
  case value =>
    have hgiven : GroundTruth.Given [(ofList pairs).groundTruth titles.toList] t = VouchedBy titles pairs t := by
      funext s
      simp [GroundTruth.Given, certifies_groundTruth]
    refine ⟨_, hgiven ▸ RelevanceMap.isLargest_peaks [(ofList pairs).groundTruth titles.toList] t, ?_⟩
    rw [RelevanceMap.build, RelevanceMap.get?_ofUniverse]

-- the page of A is listed twice, the score of C is not a number
example :
    let pairs := [(addressStart ++ "A", ["x"]), (addressStart ++ "B", ["x", "y"]), (addressStart ++ "A", ["z"])]
    (RelevanceMap.build (.ofList ["z", "x", "w"])
      [(ofList pairs).groundTruth [("A", 0.25), ("B", 0.5), ("C", 0.0 / 0.0)]]).entries =
        [("z", 0.25), ("x", 0.5), ("w", 0.0)] := by
  decide +kernel

end Inputs.PageTables

end RankEval
