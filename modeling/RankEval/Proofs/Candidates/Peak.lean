/-
The relevance of a table as a maximum. The map of relevance is made entry by entry; what it says about one table in the
end is the greatest of 0 and the scores that were vouched for that table.

- `peak_isPeak`: the greatest of 0 and some scores is one of them, and no score is above it.
- `peaks_getD`: the map at one table depends only on the scores of that table.
- `getD_gather`: grants of one key are joined.
- `getD_peaks_certified`: both together, for every ground truth.
-/
import RankEval.Candidates.Relevance
import RankEval.Inputs.PageTables
import RankEval.Proofs.Double.Order

namespace RankEval

open Double (isNaN_of_lt lt_trans not_lt_of_lt)

/-- the greatest of 0 and those scores that are numbers -/
def peak (scores : List Float) : Float :=
  (scores.filter fun s => !s.isNaN).foldl (fun m s => if m < s then s else m) 0.0

/-- Being the greatest of 0 and the scores. No score that is no number is above anything. -/
structure IsPeak (scores : List Float) (m : Float) : Prop where
  attained : m = 0.0 ∨ 0.0 < m ∧ m ∈ scores
  not_below : ∀ s ∈ scores, ¬ m < s

namespace RelevanceMap

theorem raise_raise (m s : Float) : raise (raise m s) s = raise m s := by
  unfold raise
  by_cases h : m < s
  · rw [if_pos h, ite_self]
  · rw [if_neg h, if_neg h]

theorem raise_of_isNaN {m s : Float} (h : s.isNaN = true) : raise m s = m := by
  refine if_neg fun hlt => ?_
  rw [(isNaN_of_lt hlt).2] at h
  exact Bool.false_ne_true h

theorem foldl_raise_eq_peak (scores : List Float) : scores.foldl raise 0.0 = peak scores := by
  rw [peak, List.foldl_filter]
  congr 1
  funext m s
  cases h : s.isNaN
  · rfl
  · exact raise_of_isNaN h

/-- what a walk over some scores does to a relevance: it stays or is raised to one of them, and none is above it -/
theorem foldl_raise (scores : List Float) :
    ∀ m : Float, (scores.foldl raise m = m ∨ m < scores.foldl raise m ∧ scores.foldl raise m ∈ scores) ∧
      ∀ s ∈ scores, ¬ scores.foldl raise m < s := by
  induction scores with
  | nil => intro m; exact ⟨.inl rfl, by simp⟩
  | cons s scores ih =>
    intro m
    rw [List.foldl_cons]
    obtain ⟨hattained, hbelow⟩ := ih (raise m s)
    generalize scores.foldl raise (raise m s) = r at hattained hbelow
    by_cases h : m < s
    · have hs : raise m s = s := if_pos h
      rw [hs] at hattained
      rcases hattained with rfl | ⟨hlt, hmem⟩
      · refine ⟨.inr ⟨h, List.mem_cons_self⟩, List.forall_mem_cons.2 ⟨fun hlt => not_lt_of_lt hlt hlt, hbelow⟩⟩
      · exact ⟨.inr ⟨lt_trans h hlt, List.mem_cons_of_mem _ hmem⟩,
          List.forall_mem_cons.2 ⟨not_lt_of_lt hlt, hbelow⟩⟩
    · have hs : raise m s = m := if_neg h
      rw [hs] at hattained
      rcases hattained with rfl | ⟨hlt, hmem⟩
      · exact ⟨.inl rfl, List.forall_mem_cons.2 ⟨h, hbelow⟩⟩
      · exact ⟨.inr ⟨hlt, List.mem_cons_of_mem _ hmem⟩,
          List.forall_mem_cons.2 ⟨fun hrs => h (lt_trans hlt hrs), hbelow⟩⟩

end RelevanceMap

theorem peak_isPeak (scores : List Float) : IsPeak scores (peak scores) := by
  obtain ⟨hattained, hbelow⟩ := RelevanceMap.foldl_raise scores 0.0
  rw [RelevanceMap.foldl_raise_eq_peak] at hattained hbelow
  exact ⟨hattained, hbelow⟩

/-! ## The map at one table -/

namespace RelevanceMap

theorem getD_foldl_insert (scores : List (TableId × Float)) (c : TableId) :
    ∀ index : Std.TreeMap String Float,
      (scores.foldl (fun index (t, s) => index.insert t (raise (index.getD t 0.0) s)) index).getD c 0.0 =
        ((scores.filter fun e => e.1 = c).map Prod.snd).foldl raise (index.getD c 0.0) := by
  induction scores with
  | nil => intro index; rfl
  | cons e scores ih =>
    intro index
    obtain ⟨t, s⟩ := e
    rw [List.foldl_cons, ih, Std.TreeMap.getD_insert, List.filter_cons]
    by_cases h : t = c
    · subst h
      rw [if_pos Std.ReflOrd.compare_self, if_pos (by simp)]
      rfl
    · rw [if_neg (by rwa [Std.LawfulEqOrd.compare_eq_iff_eq]), if_neg (by simpa using h)]

theorem peaks_getD (scores : List (TableId × Float)) (c : TableId) :
    (peaks scores).getD c 0.0 = ((scores.filter fun e => e.1 = c).map Prod.snd).foldl raise 0.0 := by
  rw [peaks, getD_foldl_insert, Std.TreeMap.getD_emptyc]

/-- vouching for a table more than once with the same score is vouching for it once -/
theorem foldl_raise_replicate (n : Nat) (m s : Float) :
    (List.replicate n s).foldl raise m = if n = 0 then m else raise m s := by
  induction n generalizing m with
  | zero => rfl
  | succ n ih =>
    rw [List.replicate_succ, List.foldl_cons, ih, raise_raise, ite_self, if_neg (Nat.succ_ne_zero n)]

/-- the scores of one table, when every key vouches for a list of tables -/
theorem foldl_raise_flatMap (tables : String → List TableId) (c : TableId) (scores : List (String × Float)) :
    ∀ m : Float, (((scores.flatMap fun e => (tables e.1).map fun t => (t, e.2)).filter fun e => e.1 = c).map
      Prod.snd).foldl raise m = ((scores.filter fun e => c ∈ tables e.1).map Prod.snd).foldl raise m := by
  induction scores with
  | nil => intro m; rfl
  | cons e scores ih =>
    intro m
    obtain ⟨key, s⟩ := e
    have hcopies : (((tables key).map fun t => (t, s)).filter fun e => e.1 = c).map Prod.snd =
        List.replicate ((tables key).count c) s := by
      rw [List.filter_map, List.map_map, List.count, List.countP_eq_length_filter]
      exact List.map_const' ..
    rw [List.flatMap_cons, List.filter_append, List.map_append, List.foldl_append, hcopies, foldl_raise_replicate, ih,
      List.filter_cons]
    by_cases h : c ∈ tables key
    · rw [if_neg (List.count_pos_iff.2 h).ne', if_pos (by simpa using h)]
      rfl
    · rw [if_pos (List.count_eq_zero.2 h), if_neg (by simpa using h)]

end RelevanceMap

/-! ## What the keys vouch for -/

namespace GroundTruth

theorem getD_foldl_gather (key : String) (grants : List (String × List TableId)) :
    ∀ index : Std.TreeMap String (List TableId),
      (grants.foldl (fun index grant => index.insert grant.1 (index.getD grant.1 [] ++ grant.2)) index).getD key [] =
        index.getD key [] ++ (grants.filter fun g => g.1 = key).flatMap Prod.snd := by
  induction grants with
  | nil => intro index; simp
  | cons g grants ih =>
    intro index
    rw [List.foldl_cons, ih, Std.TreeMap.getD_insert, List.filter_cons]
    by_cases h : g.1 = key
    · rw [if_pos (by rw [h, Std.ReflOrd.compare_self]), if_pos (by simpa using h), List.flatMap_cons, h,
        List.append_assoc]
    · rw [if_neg (by rwa [Std.LawfulEqOrd.compare_eq_iff_eq]), if_neg (by simpa using h)]

theorem getD_gather (grants : List (String × List TableId)) (key : String) :
    (gather grants).getD key [] = (grants.filter fun g => g.1 = key).flatMap Prod.snd := by
  rw [gather, getD_foldl_gather, Std.TreeMap.getD_emptyc, List.nil_append]

/-- The relevance that a ground truth gives to a table: the greatest of 0 and the scores of the keys that vouch for
it. -/
theorem getD_peaks_certified (g : GroundTruth) (c : TableId) :
    (RelevanceMap.peaks g.certified).getD c 0.0 =
      peak ((g.scores.filter fun e => ∃ grant ∈ g.grants, grant.1 = e.1 ∧ c ∈ grant.2).map Prod.snd) := by
  rw [RelevanceMap.peaks_getD, ← RelevanceMap.foldl_raise_eq_peak]
  rw [certified, RelevanceMap.foldl_raise_flatMap (fun key => (gather g.grants).getD key [])]
  congr 2
  refine List.filter_congr fun e _ => ?_
  rw [decide_eq_decide, getD_gather, List.mem_flatMap]
  simp only [List.mem_filter, decide_eq_true_eq, and_assoc]

/-- keys that are added one by one are there in order, each with its tables -/
theorem foldl_withKey (tables : String → List TableId) (scores : List (String × Float)) :
    ∀ g : GroundTruth, scores.foldl (fun g e => g.withKey e.1 e.2 (tables e.1)) g =
      ⟨g.scores ++ scores, g.grants ++ scores.map fun e => (e.1, tables e.1)⟩ := by
  induction scores with
  | nil => intro g; simp
  | cons e scores ih =>
    intro g
    rw [List.foldl_cons, ih]
    simp [GroundTruth.withKey]

end GroundTruth

namespace Inputs.PageTables

theorem groundTruth_eq (m : PageTables) (scores : List (String × Float)) :
    m.groundTruth scores = ⟨scores, scores.map fun e => (e.1, m.tablesOf (addressStart ++ e.1))⟩ :=
  GroundTruth.foldl_withKey (fun title => m.tablesOf (addressStart ++ title)) scores .empty

end Inputs.PageTables

end RankEval
