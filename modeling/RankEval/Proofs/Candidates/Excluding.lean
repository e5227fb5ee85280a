/-
Leaving tables out early or late. A map of relevance that is made for a whole universe and then loses some tables is the
map that is made for what is left of the universe: the same tables in the same order, at the same places, with the same
values. So it makes no difference at which stage tables are left out, in how many steps, or which of them are named more
than once.

- `build_without`: a map is made before or after tables are left out of its universe.
- `without_without`: tables that are left out in two steps are left out in one.
- `prepare_without`: what is aligned does not depend on when tables are left out.
- `StoredUniverse.Keeps.same`, `Indexed.Keeps.same`: containers that stand for one list answer everything alike.
- `excluding_commutes`: all of it, for lists and for containers with sets and indices.
-/
import RankEval.Proofs.Candidates.Coverage

namespace RankEval

/-! ## Universes and maps as lists -/

section
variable {a b both : List TableId}

/-- what is in neither of two lists is not in both together -/
theorem filter_filter_not_mem {α : Type} (key : α → TableId) (hboth : ∀ t, t ∈ both ↔ t ∈ a ∨ t ∈ b) (xs : List α) :
    ((xs.filter fun x => key x ∉ a).filter fun x => key x ∉ b) = xs.filter fun x => key x ∉ both := by
  rw [List.filter_filter]
  refine List.filter_congr fun x _ => ?_
  rw [← Bool.decide_and, decide_eq_decide, hboth, not_or, and_comm]

theorem CandidateUniverse.ext_items {u v : CandidateUniverse} (h : u.items = v.items) : u = v := by
  cases u
  cases v
  cases h
  rfl

theorem CandidateUniverse.without_without (u : CandidateUniverse) (hboth : ∀ t, t ∈ both ↔ t ∈ a ∨ t ∈ b) :
    (u.without a).without b = u.without both := by
  apply ext_items
  rw [items_without, items_without, items_without]
  exact filter_filter_not_mem id hboth u.items

namespace RelevanceMap

theorem without_without (m : RelevanceMap) (hboth : ∀ t, t ∈ both ↔ t ∈ a ∨ t ∈ b) :
    (m.without a).without b = m.without both := by
  apply ext_entries
  rw [entries_without, entries_without, entries_without]
  exact filter_filter_not_mem Prod.fst hboth m.entries

/-- The relevance of a table depends on the table and the sources only, not on its place. -/
theorem build_without (u : CandidateUniverse) (sources : List GroundTruth) (excluded : List TableId) :
    (build u sources).without excluded = build (u.without excluded) sources := by
  apply ext_entries
  rw [build, entries_ofUniverse_without, ← u.items_without]
  rfl

end RelevanceMap

/-- aligning leaves tables out of both sides before anything else -/
theorem AlignedPair.prepare_without (u : CandidateUniverse) (m : RelevanceMap) (p : PredictedScores)
    (excluded : List TableId) : prepare (u.without excluded) (m.without excluded) p [] = prepare u m p excluded := by
  have hboth : ∀ t, t ∈ excluded ↔ t ∈ excluded ∨ t ∈ ([] : List TableId) := by simp
  unfold prepare
  rw [u.without_without hboth, m.without_without hboth]

end

/-! ## Containers with sets and indices -/

/-- two universes list the same tables in one order and contain the same tables -/
structure StoredUniverse.Same (u v : StoredUniverse) : Prop where
  items : u.items = v.items
  contains : ∀ t, u.contains t = v.contains t

/-- Two containers list the same tables with the same values in one order, have every table at the same place, and
answer alike. -/
structure Indexed.Same (x y : Indexed) : Prop where
  entries : x.entries = y.entries
  place : ∀ t : TableId, x.places[t]? = y.places[t]?
  contains : ∀ t, x.contains t = y.contains t
  lookup : ∀ t, x.get? t = y.get? t

/-- a universe answers as its list says -/
theorem StoredUniverse.Keeps.same {u v : StoredUniverse} {items : List TableId} (hu : u.Keeps items)
    (hv : v.Keeps items) : u.Same v where
  items := hu.list.trans hv.list.symm
  contains t := Bool.eq_iff_iff.2 ((hu.contains_iff t).trans (hv.contains_iff t).symm)

/-- an index has the places that its list says -/
theorem Indexed.Keeps.same {x y : Indexed} {entries : List (TableId × Float)} (hx : x.Keeps entries)
    (hy : y.Keeps entries) : x.Same y := by
  have hentries : x.entries = y.entries := hx.list.trans hy.list.symm
  have hplace : ∀ t : TableId, x.places[t]? = y.places[t]? := fun t =>
    Option.ext fun i => (hx.index t i).trans (hy.index t i).symm
  refine ⟨hentries, hplace, fun t => ?_, fun t => ?_⟩
  · exact Bool.eq_iff_iff.2 ((hx.contains_iff t).trans (hy.contains_iff t).symm)
  · rw [get?, get?, hplace, values, values, hentries]

/-! ## Early or late -/

/-- **Leaving out commutes with building.** A map of relevance that loses some tables is the map that is made for what
is left of the universe; tables may be left out in two steps or in one; and what is aligned, which is never refused for
a map that was made for the universe, is the same whether tables are left out before the map is made or by the
alignment. Containers with sets and indices have all tables at the same places on both ways. -/
theorem excluding_commutes (u : CandidateUniverse) (sources : List GroundTruth) (p : PredictedScores)
    (excluded : List TableId) :
    (RelevanceMap.build u sources).without excluded = RelevanceMap.build (u.without excluded) sources ∧
    (∀ a b both : List TableId, (∀ t, t ∈ both ↔ t ∈ a ∨ t ∈ b) → (u.without a).without b = u.without both ∧
      ∀ m : RelevanceMap, (m.without a).without b = m.without both) ∧
    (∃ pair, AlignedPair.prepare u (.build u sources) p excluded = .ok pair ∧
      AlignedPair.prepare (u.without excluded) (.build (u.without excluded) sources) p [] = .ok pair) ∧
    ∀ su : StoredUniverse, su.Keeps u.items →
      ((Indexed.build su sources).without excluded).Same (.build (su.without excluded) sources) ∧
      (∀ a b both : List TableId, (∀ t, t ∈ both ↔ t ∈ a ∨ t ∈ b) → ((su.without a).without b).Same (su.without both) ∧
        ∀ (m : RelevanceMap) (x : Indexed), x.Keeps m.entries → ((x.without a).without b).Same (x.without both)) ∧
      ∀ y : Indexed, y.Keeps p.ranked → AlignedPair.prepareStored su (.build su sources) y excluded =
        AlignedPair.prepareStored (su.without excluded) (.build (su.without excluded) sources) y [] := by
  have hbuild := RelevanceMap.build_without u sources excluded
  have hprepare := AlignedPair.prepare_without u (.build u sources) p excluded
  rw [hbuild] at hprepare
  refine ⟨hbuild, fun a b both hboth => ⟨u.without_without hboth, fun m => m.without_without hboth⟩, ?_, ?_⟩
  · have hok := AlignedPair.prepare_eq u
      (fun t => (RelevanceMap.peaks (sources.flatMap GroundTruth.certified)).getD t 0.0) p excluded
    exact ⟨_, hok, hprepare.trans hok⟩
  intro su hsu
  have hleft (out : List TableId) : (su.without out).Keeps (u.without out).items :=
    StoredUniverse.keeps_without hsu u.nodup out
  have hlate := Indexed.keeps_without (Indexed.keeps_build hsu sources) excluded
  have hearly := Indexed.keeps_build (hleft excluded) sources
  refine ⟨?_, fun a b both hboth => ⟨?_, fun m x hx => ?_⟩, fun y hy => ?_⟩
  · rw [hbuild] at hlate
    exact hlate.same hearly
  · have htwice := StoredUniverse.keeps_without (hleft a) (u.without a).nodup b
    exact StoredUniverse.Keeps.same (u.without_without hboth ▸ htwice) (hleft both)
  · have htwice := Indexed.keeps_without (Indexed.keeps_without hx a) b
    exact Indexed.Keeps.same (m.without_without hboth ▸ htwice) (Indexed.keeps_without hx both)
  · rw [AlignedPair.prepareStored_eq hsu (Indexed.keeps_build hsu sources) hy,
      AlignedPair.prepareStored_eq (hleft excluded) hearly hy, hprepare]

/-- Three of five tables are left out, one of them twice, and one name is no table. The last table moves from the fifth
place to the second one and keeps the larger of its scores. -/
theorem excluding_commutes_of_five :
    let u := CandidateUniverse.ofList ["a", "b", "c", "d", "e"]
    let su := StoredUniverse.ofList ["a", "b", "c", "d", "e"]
    let sources : List GroundTruth := [⟨[("P", 0.5), ("Q", 0.25)], [("P", ["c", "e"]), ("Q", ["b", "e", "z"])]⟩]
    let p := PredictedScores.ofList [("e", 2.0), ("a", 1.0)]
    let pair : AlignedPair := ⟨["b", "e"], [0.25, 0.5], ⟨[0.0, 2.0], [false, true]⟩⟩
    (u.without ["c", "a"]).without ["d", "a", "z"] = u.without ["a", "c", "d", "z"] ∧
      AlignedPair.prepare (u.without ["a", "c", "d", "z"]) (.build (u.without ["a", "c", "d", "z"]) sources) p [] =
        .ok pair ∧
      ((Indexed.build su sources).without ["a", "c", "d", "z"]).Same
        (.build (su.without ["a", "c", "d", "z"]) sources) ∧
      (Indexed.build (su.without ["a", "c", "d", "z"]) sources).places["e"]? = some 1 ∧
      AlignedPair.prepareStored (su.without ["a", "c", "d", "z"]) (.build (su.without ["a", "c", "d", "z"]) sources)
        (.ofPairs [("e", 2.0), ("a", 1.0)]) [] = .ok pair := by
  intro u su sources p pair
  obtain ⟨-, hsteps, ⟨pair', hlate, hearly⟩, hstored⟩ := excluding_commutes u sources p ["a", "c", "d", "z"]
  have hsu : su.Keeps u.items := StoredUniverse.keeps_ofList _
  have hy : (Indexed.ofPairs [("e", 2.0), ("a", 1.0)]).Keeps p.ranked := Indexed.keeps_ofPairs _
  obtain ⟨hsame, -, haligned⟩ := hstored su hsu
  have hpair : AlignedPair.prepare u (.build u sources) p ["a", "c", "d", "z"] = .ok pair := by decide +kernel
  obtain rfl : pair = pair' := Except.ok.inj (hpair.symm.trans hlate)
  refine ⟨(hsteps ["c", "a"] ["d", "a", "z"] _ (by grind)).1, hearly, hsame, ?_, ?_⟩
  · rw [← hsame.place]
    decide +kernel
  · rw [← haligned _ hy, AlignedPair.prepareStored_eq hsu (Indexed.keeps_build hsu sources) hy]
    exact hpair

end RankEval
