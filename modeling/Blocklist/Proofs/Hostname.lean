import Blocklist.AllowList
import Blocklist.Proofs.SmallLetters

/-! Host names and the stored form of a domain. A host name is labels with single dots between them, so what stands before
and behind any of its dots is a host name too. Nothing that is trimmed from a user's spelling can stand at the end of a
host name, and a stored domain has no capitals left; so it is its own stored form. -/

namespace Blocklist

theorem isHostChar_lt {c : Char} (h : isHostChar c = true) : c.toNat < 128 := by
  delta isHostChar Char.isAlphanum Char.isAlpha Char.isUpper Char.isLower Char.isDigit at h
  simp only [Bool.or_eq_true, Bool.and_eq_true, decide_eq_true_eq, beq_iff_eq, ge_iff_le,
    UInt32.le_iff_toNat_le] at h
  rcases h with (((⟨_, h⟩ | ⟨_, h⟩) | ⟨_, h⟩) | rfl) | rfl
  · exact Nat.lt_of_le_of_lt h (by decide)
  · exact Nat.lt_of_le_of_lt h (by decide)
  · exact Nat.lt_of_le_of_lt h (by decide)
  · decide
  · decide

theorem isBlank_of_isHostChar {c : Char} (h : isHostChar c = true) : isBlank c = false :=
  forall_ascii (P := fun c => isHostChar c = true → isBlank c = false) (by decide) (isHostChar_lt h) h

theorem isHostname_iff {t : Text} : isHostname t = true ↔
    t ≠ [] ∧ t.head? ≠ some '.' ∧ t.getLast? ≠ some '.' ∧ ¬ ['.', '.'] <:+: t ∧ ∀ c ∈ t, isHostChar c = true := by
  simp only [isHostname, Bool.and_eq_true, Bool.not_eq_true', List.isEmpty_eq_false_iff, bne_iff_ne, Text.occurs,
    Option.isSome_eq_false_iff, Option.isNone_iff_eq_none, Text.cut_eq_none, List.all_eq_true, and_assoc]

/-- A dot divides a host name into two host names. -/
theorem isHostname_append_dot {a b : Text} :
    isHostname (a ++ '.' :: b) = true ↔ isHostname a = true ∧ isHostname b = true := by
  have hhead : (a ++ '.' :: b).head? ≠ some '.' ↔ a ≠ [] ∧ a.head? ≠ some '.' := by
    cases a <;> simp
  have hlast : (a ++ '.' :: b).getLast? ≠ some '.' ↔ b ≠ [] ∧ b.getLast? ≠ some '.' := by
    cases b <;> simp
  have hchars : (∀ c ∈ a ++ '.' :: b, isHostChar c = true) ↔
      (∀ c ∈ a, isHostChar c = true) ∧ ∀ c ∈ b, isHostChar c = true := by
    rw [List.forall_mem_append, List.forall_mem_cons]
    exact and_congr_right fun _ => and_iff_right (by decide)
  rw [isHostname_iff, isHostname_iff, isHostname_iff, hhead, hlast, Text.not_infix_twice_append, hchars]
  constructor
  · rintro ⟨-, ⟨ha, hahead⟩, ⟨hb, hblast⟩, ⟨⟨hadots, halast⟩, hbdots, hbhead⟩, hachars, hbchars⟩
    exact ⟨⟨ha, hahead, halast, hadots, hachars⟩, hb, hbhead, hblast, hbdots, hbchars⟩
  · rintro ⟨⟨ha, hahead, halast, hadots, hachars⟩, hb, hbhead, hblast, hbdots, hbchars⟩
    exact ⟨by simp, ⟨ha, hahead⟩, ⟨hb, hblast⟩, ⟨⟨hadots, halast⟩, hbdots, hbhead⟩, hachars, hbchars⟩

/-- A part of a host name: letters, digits and hyphens of ASCII, at least one of them. -/
structure IsLabel (l : Text) : Prop where
  nonempty : l ≠ []
  chars : ∀ c ∈ l, c.isAlphanum = true ∨ c = '-'

theorem IsLabel.dot_not_mem {l : Text} (h : IsLabel l) : '.' ∉ l := by
  intro hdot
  exact absurd (h.chars '.' hdot) (by decide)

theorem isHostname_iff_isLabel {l : Text} (h : '.' ∉ l) : isHostname l = true ↔ IsLabel l := by
  rw [isHostname_iff]
  constructor
  · rintro ⟨hne, -, -, -, hchars⟩
    refine ⟨hne, fun c hc => ?_⟩
    have hdot : c ≠ '.' := fun he => h (he ▸ hc)
    simpa [isHostChar, hdot] using hchars c hc
  · intro hl
    refine ⟨hl.nonempty, fun hd => h (List.mem_of_mem_head? hd), fun hd => h (List.mem_of_mem_getLast? hd),
      fun hd => h (hd.subset (by simp)), fun c hc => ?_⟩
    rcases hl.chars c hc with halnum | rfl
    · simp [isHostChar, halnum]
    · rfl

/-- Parts without dots make a host name exactly if each of them is a label. -/
theorem isHostname_intercalate {ls : List Text} (hne : ls ≠ []) (hdots : ∀ l ∈ ls, '.' ∉ l) :
    isHostname (['.'].intercalate ls) = true ↔ ∀ l ∈ ls, IsLabel l := by
  induction ls with
  | nil => exact absurd rfl hne
  | cons l ls ih =>
    have hl := isHostname_iff_isLabel (hdots l (by simp))
    cases ls with
    | nil => simp [List.intercalate, hl]
    | cons m ls =>
      have hrest := ih (by simp) fun k hk => hdots k (List.mem_cons_of_mem l hk)
      rw [List.intercalate_cons_cons, List.append_assoc, List.singleton_append, isHostname_append_dot, hl, hrest,
        List.forall_mem_cons (a := l)]

/-- Host names are the texts made of labels with dots between them, and what follows a dot of one is another. -/
theorem isHostname_iff_labels (v : Text) :
    (isHostname v = true ↔ ∃ ls : List Text, ls ≠ [] ∧ (∀ l ∈ ls, IsLabel l) ∧ v = ['.'].intercalate ls) ∧
    (isHostname v = true → ∀ d, '.' :: d <:+ v → isHostname d = true) := by
  refine ⟨⟨fun h => ?_, ?_⟩, ?_⟩
  · have hjoin := Text.intercalate_splitOn '.' v
    have hne : Text.splitOn '.' v ≠ [] := Text.splitWhen_ne_nil _ v
    have hlabels := isHostname_intercalate hne fun l hl => Text.not_mem_of_mem_splitOn hl
    rw [hjoin] at hlabels
    exact ⟨_, hne, hlabels.mp h, hjoin.symm⟩
  · rintro ⟨ls, hne, hlabels, rfl⟩
    exact (isHostname_intercalate hne fun l hl => (hlabels l hl).dot_not_mem).mpr hlabels
  · rintro h d ⟨a, rfl⟩
    exact (isHostname_append_dot.mp h).2

theorem isHostname_iff_labels_shop :
    isHostname "cdn-1.Shop.co.uk".toList = true ∧ '.' :: "co.uk".toList <:+ "cdn-1.Shop.co.uk".toList ∧
      isHostname "co.uk".toList = true :=
  have hshop : isHostname "cdn-1.Shop.co.uk".toList = true := by decide
  have hsuffix : '.' :: "co.uk".toList <:+ "cdn-1.Shop.co.uk".toList := by decide
  ⟨hshop, hsuffix, (isHostname_iff_labels _).2 hshop _ hsuffix⟩

theorem normalizeDomain?_eq_some {t d : Text} : normalizeDomain? t = some d ↔
    Text.lower (Text.trimWhen (· == '.') t.trim) = d ∧ isHostname d = true := by
  simp only [normalizeDomain?, Option.ite_none_right_eq_some, Option.some.injEq]
  constructor
  · rintro ⟨h, rfl⟩
    exact ⟨rfl, h⟩
  · rintro ⟨rfl, h⟩
    exact ⟨h, rfl⟩

theorem isHostname_of_normalizeDomain? {t d : Text} (h : normalizeDomain? t = some d) : isHostname d = true :=
  (normalizeDomain?_eq_some.mp h).2

theorem isUpper_of_normalizeDomain? {t d : Text} (h : normalizeDomain? t = some d) : ∀ c ∈ d, c.isUpper = false := by
  intro c hc
  rw [← (normalizeDomain?_eq_some.mp h).1] at hc
  exact Text.isUpper_of_mem_lower hc

/-- A domain in its stored form stays as it is. -/
theorem normalizeDomain?_stored {t d : Text} (h : normalizeDomain? t = some d) : normalizeDomain? d = some d := by
  obtain ⟨hd, hhost⟩ := normalizeDomain?_eq_some.mp h
  obtain ⟨-, hhead, hlast, -, hchars⟩ := isHostname_iff.mp hhost
  have hblank : d.trim = d :=
    Text.trimWhen_eq_self (fun c hc => isBlank_of_isHostChar (hchars c (List.mem_of_mem_head? hc)))
      fun c hc => isBlank_of_isHostChar (hchars c (List.mem_of_mem_getLast? hc))
  have hdots : Text.trimWhen (· == '.') d = d :=
    Text.trimWhen_eq_self (fun c hc => beq_eq_false_iff_ne.mpr fun he => hhead (he ▸ hc))
      fun c hc => beq_eq_false_iff_ne.mpr fun he => hlast (he ▸ hc)
  have hlower : d.lower = d := by
    rw [← hd, Text.lower_lower]
  rw [normalizeDomain?_eq_some, hblank, hdots]
  exact ⟨hlower, hhost⟩

end Blocklist
