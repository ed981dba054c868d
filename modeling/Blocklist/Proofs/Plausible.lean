import Blocklist.FilterList
import Blocklist.Proofs.Lines

/-! The look at a downloaded text is stable while the text grows. A line that looks like a filter still does when it goes on,
so a plausible text stays plausible wherever the download was cut; and once the lines of the sample are complete, nothing
behind them counts. -/

namespace Blocklist

namespace Text

theorem byteLength_append (t x : Text) : (t ++ x).byteLength = t.byteLength + x.byteLength := by
  rw [byteLength, utf8, List.flatMap_append, List.length_append]
  rfl

theorem length_le_byteLength (t : Text) : t.length ≤ t.byteLength := by
  induction t with
  | nil => exact Nat.le_refl 0
  | cons c t ih =>
    have hc : byteLength [c] = c.utf8Size := by simp [byteLength, utf8]
    have hpos := c.utf8Size_pos
    rw [← List.singleton_append, byteLength_append, hc, List.length_append, List.length_singleton]
    omega

end Text

namespace FilterList

theorem looksLikeFilter_iff {l : Text} : looksLikeFilter l = true ↔
    (∃ c ∈ l.trim.head?, c ≠ '!' ∧ c ≠ '[') ∧ ('.' ∈ l.trim ∨ ['#', '#'] <:+: l.trim ∨ ['|', '|'] <:+: l.trim) := by
  unfold looksLikeFilter
  cases l.trim <;> simp [Text.occurs_iff, and_assoc, or_assoc]

/-- The first character decides whether a line may be a filter, and what shows it to be one is not lost further on. -/
theorem looksLikeFilter_of_prefix {a b : Text} (h : a.trim <+: b.trim) (ha : looksLikeFilter a = true) :
    looksLikeFilter b = true := by
  obtain ⟨⟨c, hc, hmarks⟩, hsigns⟩ := looksLikeFilter_iff.mp ha
  have hhead : c ∈ b.trim.head? := by
    obtain ⟨r, hr⟩ := h
    rw [← hr, List.head?_append, hc]
    rfl
  refine looksLikeFilter_iff.mpr ⟨⟨c, hhead, hmarks⟩, ?_⟩
  rcases hsigns with hdot | hhashes | hbars
  · exact Or.inl (h.subset hdot)
  · exact Or.inr (Or.inl (hhashes.trans h.isInfix))
  · exact Or.inr (Or.inr (hbars.trans h.isInfix))

theorem looksLikeFilter_dropReturn (l : Text) : looksLikeFilter (Text.dropReturn l) = looksLikeFilter l := by
  unfold looksLikeFilter
  rw [Text.trim_dropReturn]

/-- How lines end, and whether the last one does, makes no difference to the sample. -/
theorem countP_take_linesOfPieces (n : Nat) (ps : List Text) :
    ((Text.linesOfPieces ps).take n).countP looksLikeFilter = (ps.take n).countP looksLikeFilter := by
  fun_induction Text.linesOfPieces ps generalizing n with
  | case1 => rfl
  | case2 =>
    have hempty : looksLikeFilter [] = false := by decide
    cases n <;> simp [hempty]
  | case3 => rfl
  | case4 t rest hne ih =>
    cases n with
    | zero => rfl
    | succ n =>
      rw [List.take_succ_cons, List.take_succ_cons, List.countP_cons, List.countP_cons, ih, looksLikeFilter_dropReturn]

theorem filterLines_eq (t : Text) :
    filterLines t = ((Text.splitOn '\n' t).take sampleSize).countP looksLikeFilter :=
  countP_take_linesOfPieces sampleSize _

theorem filterLines_le_append (t x : Text) : filterLines t ≤ filterLines (t ++ x) := by
  obtain ⟨ts, w, v, vs, ht, hx⟩ := Text.exists_splitOn_append '\n' t x
  rw [filterLines_eq, filterLines_eq, ht, hx, List.take_append, List.take_append, List.countP_append,
    List.countP_append]
  -- the complete lines are the same; what is left of the sample begins with the line that goes on
  apply Nat.add_le_add_left
  cases sampleSize - ts.length with
  | zero => exact Nat.le_refl 0
  | succ n =>
    have hlonger : looksLikeFilter w = true → looksLikeFilter (w ++ v) = true :=
      looksLikeFilter_of_prefix (Text.trim_prefix_trim_append w v)
    rw [List.take_succ_cons, List.take_succ_cons, List.countP_cons, List.countP_cons, List.take_nil, List.countP_nil]
    by_cases hw : looksLikeFilter w = true
    · rw [if_pos hw, if_pos (hlonger hw)]
      omega
    · rw [if_neg hw]
      exact Nat.zero_le _

theorem filterLines_append {t : Text} (h : sampleSize ≤ t.count '\n') (x : Text) :
    filterLines (t ++ x) = filterLines t := by
  obtain ⟨ts, w, v, vs, ht, hx⟩ := Text.exists_splitOn_append '\n' t x
  have hlength : sampleSize ≤ ts.length := by
    have hpieces := Text.length_splitOn '\n' t
    rw [ht, List.length_append, List.length_singleton] at hpieces
    omega
  rw [filterLines_eq, filterLines_eq, ht, hx, List.take_append_of_le_length hlength,
    List.take_append_of_le_length hlength]

theorem isPlausible_iff {t : Text} : isPlausible t = true ↔ minBytes ≤ t.byteLength ∧ fewFilters < filterLines t := by
  simp [isPlausible]

/-- A plausible text stays plausible when more text follows, also in the middle of a line; and behind a hundred complete
lines nothing changes the answer any more. -/
theorem isPlausible_append (t x : Text) :
    (isPlausible t = true → isPlausible (t ++ x) = true) ∧
    (100 ≤ t.count '\n' → isPlausible (t ++ x) = isPlausible t) := by
  have hbytes : t.byteLength ≤ (t ++ x).byteLength := Text.byteLength_append t x ▸ Nat.le_add_right _ _
  refine ⟨fun h => ?_, fun h => ?_⟩
  · obtain ⟨hlong, hmany⟩ := isPlausible_iff.mp h
    exact isPlausible_iff.mpr ⟨hlong.trans hbytes, hmany.trans_le (filterLines_le_append t x)⟩
  · -- a hundred line feeds are a hundred bytes, so the length is enough on both sides
    have hlong : minBytes ≤ t.byteLength := h.trans (List.count_le_length.trans t.length_le_byteLength)
    rw [Bool.eq_iff_iff, isPlausible_iff, isPlausible_iff, filterLines_append h]
    exact and_congr_left fun _ => iff_of_true (hlong.trans hbytes) hlong

/-- A download that stops between the carriage return and the line feed of its sixth line. -/
def brokenOff : Text :=
  ("||ads1.example.com^\r\n||ads2.example.com^\r\n||ads3.example.com^\r\n" ++
    "||ads4.example.com^\r\n||ads5.example.com^\r\n||ads6.example.com^\r").toList

def hundredLines : Text := (List.replicate 100 "/ad.gif\n".toList).flatten

theorem isPlausible_append_brokenOff :
    (isPlausible brokenOff = true ∧ isPlausible (brokenOff ++ "\n! end".toList) = true) ∧
      100 ≤ hundredLines.count '\n' ∧ isPlausible (hundredLines ++ "! end".toList) = isPlausible hundredLines :=
  have hbroken : isPlausible brokenOff = true := by decide +kernel
  have hlines : 100 ≤ hundredLines.count '\n' := by decide +kernel
  ⟨⟨hbroken, (isPlausible_append _ _).1 hbroken⟩, hlines, (isPlausible_append _ _).2 hlines⟩

end FilterList

end Blocklist
