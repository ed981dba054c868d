import Blocklist.Proofs.NetworkLine

/-! The domains that readers store. Blanks are taken off an entry before its tilde is, so a blank behind the tilde stays
at the front of the domain that is left out. This is the only way to a domain that is not clean, for the domains of an
options text and for the pages of an element line alike. -/

namespace Blocklist

/-- A domain that can be compared with the host of a page: no blanks around it, no capitals, and no separator of either
kind of list. -/
structure IsCleanDomain (d : Text) : Prop extends Text.IsTrimmed d where
  small : ∀ c ∈ d, c.isUpper = false
  bar : '|' ∉ d
  comma : ',' ∉ d

/-- An entry with a blank behind its tilde. -/
def IsLoose (e : Text) : Prop := ∃ b d, e = '~' :: b :: d ∧ isBlank b = true

theorem isLoose_tilde {d : Text} : IsLoose ('~' :: d) ↔ ∃ b ∈ d.head?, isBlank b = true := by
  cases d <;> simp [IsLoose]

namespace IsDomainEntry

variable {e d : Text}

theorem isUpper_of_mem (h : IsDomainEntry e) {c : Char} (hc : c ∈ e) : c.isUpper = false := by
  rw [← h.small] at hc
  exact Text.isUpper_of_mem_lower hc

theorem bar (h : IsDomainEntry e) : '|' ∉ e := fun hc => by simpa using h.entry.unseparated '|' hc

theorem isCleanDomain (h : IsDomainEntry e) : IsCleanDomain e :=
  ⟨h.entry.toIsTrimmed, fun _ => h.isUpper_of_mem, h.bar, h.comma⟩

/-- What stands at the end of an entry is clean if it does not begin with a blank. -/
theorem isCleanDomain_of_suffix (h : IsDomainEntry e) (hd : d <:+ e) (hne : d ≠ [])
    (hhead : ∀ c ∈ d.head?, isBlank c = false) : IsCleanDomain d := by
  have hlast : ∀ c ∈ d.getLast?, isBlank c = false := by
    intro c hc
    obtain ⟨front, rfl⟩ := hd
    exact h.entry.last c (by rwa [List.getLast?_append_of_ne_nil front hne])
  exact ⟨⟨hne, Text.trim_eq_self hhead hlast⟩, fun c hc => h.isUpper_of_mem (hd.subset hc),
    fun hc => h.bar (hd.subset hc), fun hc => h.comma (hd.subset hc)⟩

/-- Behind the tilde, blanks at the front are all that can be wrong. -/
theorem isCleanDomain_dropWhile (h : IsDomainEntry ('~' :: d)) (hne : d ≠ []) :
    IsCleanDomain (d.dropWhile isBlank) := by
  have hsuffix : d.dropWhile isBlank <:+ '~' :: d := (List.dropWhile_suffix isBlank).trans (List.suffix_cons '~' d)
  refine h.isCleanDomain_of_suffix hsuffix (fun hnil => ?_) (Text.isBlank_head?_dropWhile d)
  have hlast : isBlank (d.getLast hne) = false := by
    apply h.entry.last
    rw [List.getLast?_cons_of_ne_nil hne, List.getLast?_eq_some_getLast hne]
    rfl
  have hblank := List.dropWhile_eq_nil_iff.mp hnil _ (List.getLast_mem hne)
  rw [hlast] at hblank
  cases hblank

theorem isCleanDomain_iff (h : IsDomainEntry ('~' :: d)) (hne : d ≠ []) : IsCleanDomain d ↔ ¬ IsLoose ('~' :: d) := by
  rw [isLoose_tilde]
  constructor
  · rintro hclean ⟨b, hb, hblank⟩
    rw [hclean.head b hb] at hblank
    cases hblank
  · intro hnot
    refine h.isCleanDomain_of_suffix (List.suffix_cons '~' d) hne fun c hc => ?_
    exact Bool.eq_false_iff.mpr fun hblank => hnot ⟨c, hc, hblank⟩

end IsDomainEntry

namespace Scope

def IsClean (s : Scope) : Prop := (∀ d ∈ s.included, IsCleanDomain d) ∧ ∀ d ∈ s.excluded, IsCleanDomain d

structure CleanButLoose (E : Text → Prop) (s : Scope) : Prop where
  included : ∀ d ∈ s.included, IsCleanDomain d
  excluded : ∀ d ∈ s.excluded, IsCleanDomain (d.dropWhile isBlank)
  isClean_iff : s.IsClean ↔ ∀ e, E e → ¬ IsLoose e

theorem Lists.cleanButLoose {E : Text → Prop} {s : Scope} (h : s.Lists E) (hE : ∀ e, E e → IsDomainEntry e) :
    s.CleanButLoose E := by
  have hincluded : ∀ d ∈ s.included, IsCleanDomain d := fun d hd => (hE d ((h.included d).mp hd).1).isCleanDomain
  refine ⟨hincluded, fun d hd => ?_, fun hclean e he ⟨b, d, hed, hblank⟩ => ?_, fun hnot => ⟨hincluded, fun d hd => ?_⟩⟩
  · obtain ⟨he, hne⟩ := (h.excluded d).mp hd
    exact (hE _ he).isCleanDomain_dropWhile hne
  · subst hed
    have hd : b :: d ∈ s.excluded := (h.excluded _).mpr ⟨he, by simp⟩
    exact ((hE _ he).isCleanDomain_iff (by simp)).mp (hclean.2 _ hd) ⟨b, d, rfl, hblank⟩
  · obtain ⟨he, hne⟩ := (h.excluded d).mp hd
    exact ((hE _ he).isCleanDomain_iff hne).mpr (hnot _ he)

theorem lists_addAll (isSeparator : Char → Bool) (t : Text) :
    (addAll {} isSeparator t).Lists (· ∈ entries isSeparator t.lower) :=
  (lists_empty.foldl_add _).congr fun e => by rw [false_or]

theorem isDomainEntry_of_mem_pages {t e : Text} (h : e ∈ entries Target.isSeparator t.lower) : IsDomainEntry e := by
  obtain ⟨hentry, hinfix⟩ := isEntry_of_mem_entries h
  have hsep (c : Char) (hc : c ∈ e) : c ≠ '|' ∧ c ≠ ',' := by
    simpa [Target.isSeparator] using hentry.unseparated c hc
  refine ⟨⟨hentry.toIsTrimmed, fun c hc => ?_⟩, fun hc => (hsep _ hc).2 rfl, Text.lower_of_infix_lower hinfix⟩
  simpa using (hsep c hc).1

end Scope

/-- The pages of an element rule are read from what stands before the mark of its line. -/
theorem Rule.exists_pages_of_ofLine? [Regex.Library] {source line : Text} {number : Nat} {r : Rule} {g : Target}
    (h : ofLine? source number line = .ok (some r)) (hb : r.body = .cosmetic g ∨ r.body = .procedural g) :
    ∃ mark pages selector, Line.ofText line = .element mark pages selector ∧
      g = ⟨selector.trim, Scope.addAll {} Target.isSeparator pages⟩ := by
  rcases Line.rule?_cases h with ⟨l, p, o, -, -, rfl⟩ | ⟨mark, pages, selector, hline, -, rfl⟩
  · rcases hb with hb | hb <;> cases hb
  · refine ⟨mark, pages, selector, hline, Eq.symm ?_⟩
    simp only [Line.elementBody] at hb
    split_ifs at hb <;> simpa using hb

/-- Both readers store clean domains, but for a blank behind a tilde. -/
theorem Scope.cleanButLoose_of_reading [Regex.Library] (t source line : Text) (number : Nat) :
    (Options.read t).initiators.CleanButLoose (Options.Listed (Options.tokens t)) ∧
    ∀ r g, Rule.ofLine? source number line = .ok (some r) → (r.body = .cosmetic g ∨ r.body = .procedural g) →
      ∃ mark pages selector, Line.ofText line = .element mark pages selector ∧
        g.pages.CleanButLoose (· ∈ entries Target.isSeparator pages.lower) := by
  refine ⟨?_, fun r g h hb => ?_⟩
  · refine (Options.saidBy_read t).initiators.cleanButLoose fun e he => ?_
    exact Options.isDomainEntry_of_mentions (Options.mentions_iff_listed.mpr he)
  · obtain ⟨mark, pages, selector, hline, rfl⟩ := Rule.exists_pages_of_ofLine? h hb
    exact ⟨mark, pages, selector, hline, (lists_addAll _ pages).cleanButLoose fun e => isDomainEntry_of_mem_pages⟩

/-- A blank behind the tilde is stored with the domain, by either reader. -/
theorem Scope.not_isClean_tilde_blank :
    ¬ (Options.read "domain=~ example.com".toList).initiators.IsClean ∧
    ∃ r g, Rule.ofLine? "list".toList 1 "~ example.com##.ad".toList = .ok (some r) ∧ r.body = .cosmetic g ∧
      ¬ g.pages.IsClean := by
  have hdomain : ¬ IsCleanDomain " example.com".toList := fun h => absurd h.trimmed (by decide)
  have hoptions : " example.com".toList ∈ (Options.read "domain=~ example.com".toList).initiators.excluded.names := by
    decide
  have hpages : " example.com".toList ∈ (addAll {} Target.isSeparator "~ example.com".toList).excluded.names := by
    decide
  exact ⟨fun h => hdomain (h.2 _ hoptions), _, _, rfl, rfl, fun h => hdomain (h.2 _ hpages)⟩

end Blocklist
