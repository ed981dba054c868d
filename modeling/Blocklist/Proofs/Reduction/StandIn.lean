import Blocklist.Proofs.Glob
import Blocklist.Proofs.Reduction.Cover

/-! The stand-in for the dots of an expression is exact. A wildcard that does not name it is found in the one text with the
stand-ins exactly if it is found in every text the expression may match; so, action, scope and the library's verdict apart, it
covers an expression of characters and dots exactly if it matches all that the expression does. -/

namespace Blocklist

open Wildcard

/-- The stand-in is one of the characters a dot may match. -/
theorem dotsFilled_anyChar (t : Text) : DotsFilled t (t.map fun c => if c = '.' then Reduction.anyChar else c) := by
  unfold DotsFilled
  rw [List.forall₂_map_right_iff, List.forall₂_same]
  intro c _
  split_ifs
  · decide
  · rfl

namespace Reduction

theorem coverTexts?_of_no_operator {t : Text} (h : ∀ c ∈ t, c ∉ operators) :
    coverTexts? (.regex t) = some [t.map fun c => if c = '.' then anyChar else c] := by
  rw [coverTexts?, if_neg]
  simpa using h

theorem star_not_mem_standIn {t : Text} (h : ∀ c ∈ t, c ∉ operators) :
    '*' ∉ t.map fun c => if c = '.' then anyChar else c := by
  intro hstar
  obtain ⟨c, hc, he⟩ := List.mem_map.mp hstar
  split_ifs at he with hdot
  · exact absurd he (by decide)
  · exact h c hc (he ▸ by decide)

/-- A match passes over the stand-ins, so it outlives any exchange of them. -/
theorem matches_standIn_iff {w : Text} (hw : anyChar ∉ w) {t : Text} :
    Matches (Wildcard.regex w) (t.map fun c => if c = '.' then anyChar else c) ↔
      ∀ s, DotsFilled t s → Matches (Wildcard.regex w) s := by
  simp only [← finds_iff_matches]
  constructor
  · intro h s hs
    refine h.retouched (fun c hc hfree => ?_) (retouched_dotsFilled hs)
    rw [List.mem_singleton.mp hfree] at hc
    exact hw hc
  · intro h
    exact h _ (dotsFilled_anyChar t)

/-- For a wildcard that does not name the stand-in, one text with stand-ins is as good as all the texts with other characters
in their places; and a wildcard that the library takes covers an expression exactly if, besides action and scope, it matches all
of them. -/
theorem standIn_exact [Regex.Library] {w : Text} (hw : anyChar ∉ w) (t : Text) :
    (Matches (Wildcard.regex w) (t.map fun c => if c = '.' then anyChar else c) ↔
      ∀ s, DotsFilled t s → Matches (Wildcard.regex w) s) ∧
    ∀ (defaults : TypeSet) (v r : Rule) (o q : Options), v.body = .network (.wildcard w) o →
      r.body = .network (.regex t) q →
      (covers defaults v r = true ↔ v.action = r.action ∧ o.subsumes q defaults = true ∧
        Regex.Library.compile (Wildcard.regex w) = .ok () ∧
        (∀ c ∈ t, c ∉ operators) ∧ ∀ s, DotsFilled t s → Matches (Wildcard.regex w) s) := by
  refine ⟨matches_standIn_iff hw, fun defaults v r o q hv hr => ?_⟩
  rw [covers_iff]
  constructor
  · rintro ⟨w', o', p, q', ts, hv', hr', haction, hscope, htaken, htexts, hfound⟩
    rw [hv, Body.network.injEq, Pattern.wildcard.injEq] at hv'
    rw [hr, Body.network.injEq] at hr'
    obtain ⟨rfl, rfl⟩ := hv'
    obtain ⟨rfl, rfl⟩ := hr'
    obtain ⟨hplain, rfl⟩ := coverTexts?_regex htexts
    have hmatches := finds_iff_matches.mp (hfound _ (List.mem_singleton_self _)).2
    exact ⟨haction, hscope, htaken, hplain, (matches_standIn_iff hw).mp hmatches⟩
  · rintro ⟨haction, hscope, htaken, hplain, hmatches⟩
    refine ⟨w, o, .regex t, q, _, hv, hr, haction, hscope, htaken, coverTexts?_of_no_operator hplain, fun x hx => ?_⟩
    obtain rfl := List.mem_singleton.mp hx
    exact ⟨star_not_mem_standIn hplain, finds_iff_matches.mpr ((matches_standIn_iff hw).mpr hmatches)⟩

def scriptCover : Rule := ⟨.block, .network (.wildcard "/ads*js".toList) {}, 1, [], 1⟩

def scriptRule : Rule := ⟨.block, .network (.regex "/ads.js".toList) {}, 1, [], 2⟩

theorem standIn_exact_script : anyChar ∉ "/ads*js".toList ∧
    (∀ s, DotsFilled "/ads.js".toList s → Matches (Wildcard.regex "/ads*js".toList) s) ∧
    covers .empty scriptCover scriptRule = true := by
  have hw : anyChar ∉ "/ads*js".toList := by decide
  have hplain : ∀ c ∈ "/ads.js".toList, c ∉ operators := List.forall_iff_forall_mem.mp (by decide)
  have hstandIn : Matches (Wildcard.regex "/ads*js".toList)
      ("/ads.js".toList.map fun c => if c = '.' then anyChar else c) :=
    finds_iff_matches.mp (occursIn_iff_finds.mp (by decide))
  obtain ⟨hexact, hcovers⟩ := standIn_exact hw "/ads.js".toList
  have hall := hexact.mp hstandIn
  exact ⟨hw, hall, (hcovers .empty scriptCover scriptRule {} {} rfl rfl).mpr
    ⟨rfl, by decide, Regex.compile_regex _, hplain, hall⟩⟩

end Reduction

end Blocklist
