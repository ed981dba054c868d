import Blocklist.Digest.Encoding
import Mathlib.Algebra.Group.Nat.Defs
import Mathlib.Tactic.SplitIfs

/-! Encodings that show where they end. Whatever bytes follow, the value can be told from its encoding and the rest is
left; so values that are encoded one behind the other can be told apart one by one. -/

namespace Blocklist.Digest

/-- Of the values in `S`, no encoding is the beginning of another. -/
def PrefixFree {α : Type} (S : α → Prop) (enc : α → Bytes) : Prop :=
  ∀ ⦃a b : α⦄, S a → S b → ∀ ⦃s t : Bytes⦄, enc a ++ s = enc b ++ t → a = b ∧ s = t

variable {α : Type} {S T : α → Prop} {enc : α → Bytes}

theorem PrefixFree.mono (h : PrefixFree S enc) (hT : ∀ a, T a → S a) : PrefixFree T enc :=
  fun a b ha hb => h (hT a ha) (hT b hb)

theorem PrefixFree.eq_of_isPrefix (h : PrefixFree S enc) {a b : α} (ha : S a) (hb : S b) (hp : enc a <+: enc b) :
    a = b := by
  obtain ⟨t, ht⟩ := hp
  exact (h ha hb (ht.trans (List.append_nil _).symm)).1

theorem littleEndian_prefixFree (w : Nat) : PrefixFree (· < 256 ^ w) (littleEndian w) := by
  induction w with
  | zero =>
    intro n m hn hm s t h
    rw [Nat.pow_zero] at hn hm
    exact ⟨by omega, h⟩
  | succ w ih =>
    intro n m hn hm s t h
    rw [littleEndian, littleEndian, List.cons_append, List.cons_append, List.cons.injEq] at h
    have hlow : n % 256 = m % 256 := by simpa using congrArg UInt8.toNat h.1
    rw [Nat.pow_succ] at hn hm
    obtain ⟨hhigh, hst⟩ := ih (Nat.div_lt_of_lt_mul (by omega)) (Nat.div_lt_of_lt_mul (by omega)) h.2
    exact ⟨by omega, hst⟩

theorem word64_prefixFree : PrefixFree (· < 2 ^ 64) word64 := littleEndian_prefixFree 8

theorem bool_prefixFree : PrefixFree (fun _ => True) bool := by
  intro a b _ _ s t h
  cases a <;> cases b <;> simp_all [bool]

/-- The first byte of a character is never the one that ends a text. -/
theorem utf8EncodeChar_append_ne (c : Char) (s t : Bytes) : String.utf8EncodeChar c ++ s ≠ 0xff :: t := by
  have hbyte {n : Nat} (hn : n < 255) : UInt8.ofNat n ≠ 0xff := by
    intro h
    have hnat := congrArg UInt8.toNat h
    rw [UInt8.toNat_ofNat'] at hnat
    change n % 2 ^ 8 = 255 at hnat
    omega
  intro h
  unfold String.utf8EncodeChar at h
  simp only at h
  split_ifs at h <;> exact hbyte (by omega) (List.cons.inj h).1

theorem utf8EncodeChar_prefixFree : PrefixFree (fun _ => True) String.utf8EncodeChar := by
  intro c d _ _ s t h
  have hdecode (c : Char) (s : Bytes) :
      ByteArray.utf8DecodeChar? (String.utf8EncodeChar c ++ s).toByteArray 0 = some c := by
    rw [List.toByteArray_append]
    exact ByteArray.utf8DecodeChar?_utf8EncodeChar_append
  have hcd : c = d := by
    have hd := hdecode d t
    rw [← h, hdecode c s] at hd
    exact Option.some.inj hd
  subst hcd
  exact ⟨rfl, List.append_cancel_left h⟩

theorem text_prefixFree : PrefixFree (fun _ => True) text := by
  intro a b _ _ s t h
  simp only [text, Text.utf8, List.append_assoc, List.singleton_append] at h
  induction a generalizing b with
  | nil =>
    cases b with
    | nil => exact ⟨rfl, (List.cons.inj h).2⟩
    | cons d b =>
      rw [List.flatMap_cons, List.append_assoc] at h
      exact absurd h.symm (utf8EncodeChar_append_ne d _ s)
  | cons c a ih =>
    rw [List.flatMap_cons, List.append_assoc] at h
    cases b with
    | nil => exact absurd h (utf8EncodeChar_append_ne c _ t)
    | cons d b =>
      rw [List.flatMap_cons, List.append_assoc] at h
      obtain ⟨rfl, hrest⟩ := utf8EncodeChar_prefixFree trivial trivial h
      obtain ⟨rfl, hst⟩ := ih hrest
      exact ⟨rfl, hst⟩

theorem choice_append_inj {n m : Nat} (hn : n < 2 ^ 64) (hm : m < 2 ^ 64) {p q s t : Bytes}
    (h : choice n p ++ s = choice m q ++ t) : n = m ∧ p ++ s = q ++ t := by
  rw [choice, choice, List.append_assoc, List.append_assoc] at h
  exact word64_prefixFree hn hm h

theorem PrefixFree.option (h : PrefixFree S enc) : PrefixFree (fun o => ∀ a ∈ o, S a) (option enc) := by
  intro o p ho hp s t he
  cases o with
  | none =>
    cases p with
    | none => exact ⟨rfl, (choice_append_inj (by decide) (by decide) he).2⟩
    | some b => exact absurd (choice_append_inj (by decide) (by decide) he).1 (by decide)
  | some a =>
    cases p with
    | none => exact absurd (choice_append_inj (by decide) (by decide) he).1 (by decide)
    | some b =>
      obtain ⟨rfl, hst⟩ := h (ho a rfl) (hp b rfl) (choice_append_inj (by decide) (by decide) he).2
      exact ⟨rfl, hst⟩

theorem PrefixFree.flatMap (h : PrefixFree S enc) {xs ys : List α} (hx : ∀ x ∈ xs, S x) (hy : ∀ y ∈ ys, S y)
    (hl : xs.length = ys.length) {s t : Bytes} (he : xs.flatMap enc ++ s = ys.flatMap enc ++ t) : xs = ys ∧ s = t := by
  induction xs generalizing ys with
  | nil =>
    obtain rfl := List.eq_nil_of_length_eq_zero hl.symm
    exact ⟨rfl, he⟩
  | cons x xs ih =>
    cases ys with
    | nil => cases hl
    | cons y ys =>
      rw [List.flatMap_cons, List.flatMap_cons, List.append_assoc, List.append_assoc] at he
      obtain ⟨rfl, hrest⟩ := h (hx x (by simp)) (hy y (by simp)) he
      obtain ⟨rfl, hst⟩ :=
        ih (fun z hz => hx z (by simp [hz])) (fun z hz => hy z (by simp [hz])) (Nat.succ.inj hl) hrest
      exact ⟨rfl, hst⟩

/-- Eight bytes hold the length. -/
def Counted (xs : List α) : Prop := xs.length < 2 ^ 64

instance (xs : List α) : Decidable (Counted xs) := inferInstanceAs (Decidable (_ < _))

theorem PrefixFree.list (h : PrefixFree S enc) :
    PrefixFree (fun xs => Counted xs ∧ ∀ x ∈ xs, S x) (list enc) := by
  intro xs ys hx hy s t he
  rw [Digest.list, Digest.list, List.append_assoc, List.append_assoc] at he
  obtain ⟨hl, he⟩ := word64_prefixFree hx.1 hy.1 he
  exact h.flatMap hx.2 hy.2 hl he

theorem texts_prefixFree : PrefixFree Counted (list text) :=
  text_prefixFree.list.mono fun _ h => ⟨h, fun _ _ => trivial⟩

end Blocklist.Digest
