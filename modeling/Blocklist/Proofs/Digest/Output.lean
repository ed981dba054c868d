import Blocklist.Digest.Encoding
import Blocklist.Proofs.Digest.PrefixFree

/-! What a fingerprint is taken of. Rules that do different things have different encodings, and no output is encoded
as the beginning of another; so outputs with one fingerprint are the same, or their encodings collide. -/

namespace Blocklist

/-! Values whose lists have lengths of at most eight bytes. -/

def Scope.Counted (s : Scope) : Prop := Digest.Counted s.included.names ∧ Digest.Counted s.excluded.names

def Pattern.Counted : Pattern → Prop
  | .hostGroup hs => Digest.Counted hs
  | _ => True

def Body.Counted : Body → Prop
  | .network p o => p.Counted ∧ o.initiators.Counted
  | .cosmetic t | .procedural t => t.pages.Counted

structure Condition.Counted (c : Condition) : Prop where
  requestDomains : ∀ hs ∈ c.requestDomains, Digest.Counted hs
  initiatorDomains : ∀ ds ∈ c.initiatorDomains, Digest.Counted ds
  excludedInitiatorDomains : ∀ ds ∈ c.excludedInitiatorDomains, Digest.Counted ds
  resourceTypes : ∀ rs ∈ c.resourceTypes, Digest.Counted rs

structure Batch.Counted (b : Batch) : Prop where
  index : b.index < 2 ^ 64
  records : Digest.Counted b.records
  conditions : ∀ r ∈ b.records, r.condition.Counted

def ElementEntry.Counted (e : ElementEntry) : Prop := Digest.Counted e.pages ∧ Digest.Counted e.excludedPages

structure CosmeticBundle.Counted (b : CosmeticBundle) : Prop where
  hide : Digest.Counted b.hide ∧ ∀ e ∈ b.hide, e.Counted
  unhide : Digest.Counted b.unhide ∧ ∀ e ∈ b.unhide, e.Counted
  procedural : Digest.Counted b.procedural ∧ ∀ e ∈ b.procedural, e.Counted

namespace Digest

theorem action_prefixFree : PrefixFree (fun _ => True) action := by
  intro a b _ _ s t h
  cases a <;> cases b <;> obtain ⟨hn, hst⟩ := choice_append_inj (by decide) (by decide) h <;> cases hn <;>
    exact ⟨rfl, hst⟩

theorem names_prefixFree : PrefixFree (fun s : NameSet => Counted s.names) names := by
  intro a b ha hb s t h
  obtain ⟨hab, hst⟩ := texts_prefixFree ha hb h
  exact ⟨NameSet.mk.injEq .. ▸ hab, hst⟩

theorem typeSet_prefixFree : PrefixFree (fun _ => True) typeSet := by
  intro a b _ _ s t h
  have hlt (x : TypeSet) : x.bits.toNat < 256 ^ 2 := Nat.lt_trans x.bits.isLt (by decide)
  obtain ⟨hab, hst⟩ := littleEndian_prefixFree 2 (hlt a) (hlt b) h
  exact ⟨TypeSet.mk.injEq .. ▸ BitVec.eq_of_toNat_eq hab, hst⟩

theorem pattern_prefixFree : PrefixFree Pattern.Counted pattern := by
  intro a b ha hb s t h
  -- two different numbers of alternatives never begin the same bytes, so only the eight equal pairs are left
  cases a <;> cases b <;> obtain ⟨hn, hpayload⟩ := choice_append_inj (by decide) (by decide) h <;> cases hn
  case hostGroup.hostGroup =>
    obtain ⟨rfl, hst⟩ := texts_prefixFree ha hb hpayload
    exact ⟨rfl, hst⟩
  all_goals
    obtain ⟨rfl, hst⟩ := text_prefixFree trivial trivial hpayload
    exact ⟨rfl, hst⟩

theorem options_prefixFree : PrefixFree (fun o : Options => o.initiators.Counted) options := by
  intro a b ha hb s t h
  simp only [options, List.append_assoc] at h
  obtain ⟨hincluded, h⟩ := names_prefixFree ha.1 hb.1 h
  obtain ⟨hexcluded, h⟩ := names_prefixFree ha.2 hb.2 h
  obtain ⟨hparty, h⟩ := bool_prefixFree.option (fun _ _ => trivial) (fun _ _ => trivial) h
  obtain ⟨htypes, h⟩ := typeSet_prefixFree trivial trivial h
  obtain ⟨hexcludedTypes, h⟩ := typeSet_prefixFree trivial trivial h
  obtain ⟨himportant, h⟩ := bool_prefixFree trivial trivial h
  refine ⟨?_, h⟩
  obtain ⟨⟨_, _⟩, _, _, _, _⟩ := a
  obtain ⟨⟨_, _⟩, _, _, _, _⟩ := b
  simp_all

theorem target_prefixFree : PrefixFree (fun g : Target => g.pages.Counted) target := by
  intro a b ha hb s t h
  simp only [target, List.append_assoc] at h
  obtain ⟨hselector, h⟩ := text_prefixFree trivial trivial h
  obtain ⟨hincluded, h⟩ := names_prefixFree ha.1 hb.1 h
  obtain ⟨hexcluded, h⟩ := names_prefixFree ha.2 hb.2 h
  refine ⟨?_, h⟩
  obtain ⟨_, ⟨_, _⟩⟩ := a
  obtain ⟨_, ⟨_, _⟩⟩ := b
  simp_all

theorem body_prefixFree : PrefixFree Body.Counted body := by
  intro a b ha hb s t h
  cases a <;> cases b <;> obtain ⟨hn, hpayload⟩ := choice_append_inj (by decide) (by decide) h <;> cases hn
  case network.network =>
    rw [List.append_assoc, List.append_assoc] at hpayload
    obtain ⟨rfl, hoptions⟩ := pattern_prefixFree ha.1 hb.1 hpayload
    obtain ⟨rfl, hst⟩ := options_prefixFree ha.2 hb.2 hoptions
    exact ⟨rfl, hst⟩
  all_goals
    obtain ⟨rfl, hst⟩ := target_prefixFree ha hb hpayload
    exact ⟨rfl, hst⟩

theorem rule_eq_iff {a b : Rule} (ha : a.body.Counted) (hb : b.body.Counted) : rule a = rule b ↔ a.key = b.key := by
  constructor
  · intro h
    rw [rule, rule] at h
    obtain ⟨haction, hbody⟩ := action_prefixFree trivial trivial h
    rw [Rule.key, Rule.key, haction, body_prefixFree.eq_of_isPrefix ha hb (hbody ▸ List.prefix_refl _)]
  · intro h
    obtain ⟨haction, hbody⟩ := Rule.Key.mk.inj h
    rw [rule, rule, haction, hbody]

theorem resourceType_prefixFree : PrefixFree (fun _ => True) resourceType := by
  intro a b _ _ s t h
  have hlt (r : ResourceType) : r.index < 2 ^ 64 := by cases r <;> decide
  obtain ⟨hindex, hst⟩ := choice_append_inj (hlt a) (hlt b) h
  refine ⟨?_, hst⟩
  cases a <;> cases b <;> first | rfl | cases hindex

theorem recordAction_prefixFree : PrefixFree (fun _ => True) recordAction := by
  intro a b _ _ s t h
  cases a <;> cases b <;> obtain ⟨hn, hst⟩ := choice_append_inj (by decide) (by decide) h <;> cases hn <;>
    exact ⟨rfl, hst⟩

theorem party_prefixFree : PrefixFree (fun _ => True) party := by
  intro a b _ _ s t h
  cases a <;> cases b <;> obtain ⟨hn, hst⟩ := choice_append_inj (by decide) (by decide) h <;> cases hn <;>
    exact ⟨rfl, hst⟩

theorem resourceTypes_prefixFree : PrefixFree Counted (list resourceType) :=
  resourceType_prefixFree.list.mono fun _ h => ⟨h, fun _ _ => trivial⟩

theorem condition_prefixFree : PrefixFree Condition.Counted condition := by
  intro a b ha hb s t h
  simp only [condition, List.append_assoc] at h
  obtain ⟨hurl, h⟩ := text_prefixFree.option (fun _ _ => trivial) (fun _ _ => trivial) h
  obtain ⟨hregex, h⟩ := text_prefixFree.option (fun _ _ => trivial) (fun _ _ => trivial) h
  obtain ⟨hrequest, h⟩ := texts_prefixFree.option ha.requestDomains hb.requestDomains h
  obtain ⟨hinitiator, h⟩ := texts_prefixFree.option ha.initiatorDomains hb.initiatorDomains h
  obtain ⟨hexcluded, h⟩ :=
    texts_prefixFree.option ha.excludedInitiatorDomains hb.excludedInitiatorDomains h
  obtain ⟨htypes, h⟩ := resourceTypes_prefixFree.option ha.resourceTypes hb.resourceTypes h
  obtain ⟨hparty, h⟩ := party_prefixFree.option (fun _ _ => trivial) (fun _ _ => trivial) h
  refine ⟨?_, h⟩
  cases a
  cases b
  simp_all

theorem record_prefixFree : PrefixFree (fun r : Record => r.condition.Counted) record := by
  intro a b ha hb s t h
  have hlt (n : UInt32) : n.toNat < 256 ^ 4 := n.toNat_lt
  simp only [record, List.append_assoc] at h
  obtain ⟨hid, h⟩ := littleEndian_prefixFree 4 (hlt a.id) (hlt b.id) h
  obtain ⟨hpriority, h⟩ := littleEndian_prefixFree 4 (hlt a.priority) (hlt b.priority) h
  obtain ⟨haction, h⟩ := recordAction_prefixFree trivial trivial h
  obtain ⟨hcondition, h⟩ := condition_prefixFree ha hb h
  refine ⟨?_, h⟩
  cases a
  cases b
  simp_all [UInt32.toNat_inj]

theorem batch_prefixFree : PrefixFree Batch.Counted batch := by
  intro a b ha hb s t h
  rw [batch, batch, List.append_assoc, List.append_assoc] at h
  obtain ⟨hindex, h⟩ := word64_prefixFree ha.index hb.index h
  obtain ⟨hrecords, h⟩ := record_prefixFree.list ⟨ha.records, ha.conditions⟩ ⟨hb.records, hb.conditions⟩ h
  refine ⟨?_, h⟩
  cases a
  cases b
  simp_all

theorem elementEntry_prefixFree : PrefixFree ElementEntry.Counted elementEntry := by
  intro a b ha hb s t h
  simp only [elementEntry, List.append_assoc] at h
  obtain ⟨hselector, h⟩ := text_prefixFree trivial trivial h
  obtain ⟨hpages, h⟩ := texts_prefixFree ha.1 hb.1 h
  obtain ⟨hexcluded, h⟩ := texts_prefixFree ha.2 hb.2 h
  refine ⟨?_, h⟩
  cases a
  cases b
  simp_all

theorem bundle_prefixFree : PrefixFree CosmeticBundle.Counted bundle := by
  intro a b ha hb s t h
  simp only [bundle, List.append_assoc] at h
  obtain ⟨hhide, h⟩ := elementEntry_prefixFree.list ha.hide hb.hide h
  obtain ⟨hunhide, h⟩ := elementEntry_prefixFree.list ha.unhide hb.unhide h
  obtain ⟨hprocedural, h⟩ := elementEntry_prefixFree.list ha.procedural hb.procedural h
  refine ⟨?_, h⟩
  cases a
  cases b
  simp_all

/-- The batches and the bundle of one output, all of its lists with lengths of at most eight bytes. -/
structure CountedOutput (bs : List Batch) (c : CosmeticBundle) : Prop where
  batches : Counted bs ∧ ∀ b ∈ bs, b.Counted
  cosmetic : c.Counted

theorem output_append_inj {bs bs' : List Batch} {c c' : CosmeticBundle} (h : CountedOutput bs c)
    (h' : CountedOutput bs' c') {s t : Bytes} (he : output bs c ++ s = output bs' c' ++ t) :
    bs = bs' ∧ c = c' ∧ s = t := by
  rw [output, output, List.append_assoc, List.append_assoc] at he
  obtain ⟨hbatches, hrest⟩ := batch_prefixFree.list h.batches h'.batches he
  exact ⟨hbatches, bundle_prefixFree h.cosmetic h'.cosmetic hrest⟩

theorem eq_of_prefix_output {bs bs' : List Batch} {c c' : CosmeticBundle} (h : CountedOutput bs c)
    (h' : CountedOutput bs' c') (hp : output bs c <+: output bs' c') : bs = bs' ∧ c = c' := by
  obtain ⟨t, ht⟩ := hp
  obtain ⟨hbatches, hcosmetic, -⟩ := output_append_inj h h' (ht.trans (List.append_nil _).symm)
  exact ⟨hbatches, hcosmetic⟩

theorem digitChar_inj {a b : Nat} (ha : a < 16) (hb : b < 16) (h : Nat.digitChar a = Nat.digitChar b) : a = b := by
  have hall : ∀ a < 16, ∀ b < 16, Nat.digitChar a = Nat.digitChar b → a = b := by decide
  exact hall a ha b hb h

/-- A number below `2 ^ 64` is known by its sixteen hexadecimal digits. -/
theorem eq_of_digits_eq {n m : Nat} (hn : n < 2 ^ 64) (hm : m < 2 ^ 64)
    (h : ∀ k < 16, (n >>> (4 * k)) % 2 ^ 4 = (m >>> (4 * k)) % 2 ^ 4) : n = m := by
  apply Nat.eq_of_testBit_eq
  intro j
  by_cases hj : j < 64
  · have hbit (x : Nat) : x.testBit j = ((x >>> (4 * (j / 4))) % 2 ^ 4).testBit (j % 4) := by
      rw [Nat.testBit_mod_two_pow, Nat.testBit_shiftRight, decide_eq_true (by omega : j % 4 < 4), Bool.true_and]
      congr 1
      omega
    rw [hbit n, hbit m, h (j / 4) (by omega)]
  · have hle : 2 ^ 64 ≤ 2 ^ j := Nat.pow_le_pow_right (by decide) (by omega)
    rw [Nat.testBit_lt_two_pow (by omega), Nat.testBit_lt_two_pow (by omega)]

/-- The sixteen digits show the whole hash. -/
theorem fingerprint_eq_iff {x y : Bytes} :
    fingerprint x = fingerprint y ↔ XXH64.hash seed x = XXH64.hash seed y := by
  constructor
  · intro h
    apply UInt64.toNat_inj.mp
    apply eq_of_digits_eq (UInt64.toNat_lt _) (UInt64.toNat_lt _)
    intro k hk
    simp only [fingerprint] at h
    have hdigit := List.map_inj_left.mp h (15 - k) (List.mem_range.mpr (by omega))
    rw [show 15 - (15 - k) = k by omega] at hdigit
    exact digitChar_inj (Nat.mod_lt _ (by decide)) (Nat.mod_lt _ (by decide)) hdigit
  · intro h
    rw [fingerprint, fingerprint, h]

/-- No output is encoded as the beginning of another one; rules have the same encoding exactly if they do the same,
and it is that of their key. Outputs with one fingerprint are equal or a collision of the hash. -/
theorem encodings_unambiguous {bs bs' : List Batch} {c c' : CosmeticBundle} (h : CountedOutput bs c)
    (h' : CountedOutput bs' c') {a b : Rule} (ha : a.body.Counted) (hb : b.body.Counted) :
    (output bs c <+: output bs' c' → bs = bs' ∧ c = c') ∧
    ((rule a = rule b ↔ a.same b = true) ∧ (a.same b = true ↔ a.key = b.key) ∧ rule a = ruleKey a.key) ∧
    (fingerprint (output bs c) = fingerprint (output bs' c') →
      (bs = bs' ∧ c = c') ∨
        output bs c ≠ output bs' c' ∧ XXH64.hash seed (output bs c) = XXH64.hash seed (output bs' c')) := by
  have hsame : a.same b = true ↔ a.key = b.key := by rw [Rule.same, beq_iff_eq]
  refine ⟨eq_of_prefix_output h h', ⟨(rule_eq_iff ha hb).trans hsame.symm, hsame, rfl⟩, fun hprint => ?_⟩
  by_cases he : output bs c = output bs' c'
  · exact Or.inl (eq_of_prefix_output h h' (he ▸ List.prefix_refl _))
  · exact Or.inr ⟨he, fingerprint_eq_iff.mp hprint⟩

def single (c : Condition) : List Batch := [⟨0, [⟨1, 1, .block, c⟩]⟩]

theorem countedOutput_single {c : Condition} (h : c.Counted) : CountedOutput (single c) ⟨[], [], []⟩ where
  batches := by
    refine ⟨by simp [single, Counted], fun b hb => ?_⟩
    obtain rfl := List.mem_singleton.mp hb
    exact ⟨by simp, by simp [Counted], by simpa using h⟩
  cosmetic := by constructor <;> simp [Counted]

def shop : List Text := ["shop.example".toList]

def shopRule (others : Bool) : Rule :=
  let pages : Scope := if others then { excluded := .ofList shop } else { included := .ofList shop }
  ⟨.block, .network (.substring "ad".toList) { initiators := pages }, 1, "list".toList, 1⟩

/-- Requests to the shop and requests from its pages, and rules for its pages and for all others. -/
theorem encodings_unambiguous_shop :
    CountedOutput (single { requestDomains := some shop }) ⟨[], [], []⟩ ∧
    CountedOutput (single { initiatorDomains := some shop }) ⟨[], [], []⟩ ∧
    (shopRule false).body.Counted ∧ (shopRule true).body.Counted ∧
    ¬ output (single { requestDomains := some shop }) ⟨[], [], []⟩ <+:
      output (single { initiatorDomains := some shop }) ⟨[], [], []⟩ ∧
    rule (shopRule false) ≠ rule (shopRule true) := by
  have hto : CountedOutput (single { requestDomains := some shop }) ⟨[], [], []⟩ :=
    countedOutput_single (by constructor <;> simp [Counted, shop])
  have hfrom : CountedOutput (single { initiatorDomains := some shop }) ⟨[], [], []⟩ :=
    countedOutput_single (by constructor <;> simp [Counted, shop])
  have hrule (b : Bool) : (shopRule b).body.Counted := by
    cases b <;> exact ⟨trivial, by decide, by decide⟩
  have h := encodings_unambiguous hto hfrom (hrule false) (hrule true)
  refine ⟨hto, hfrom, hrule false, hrule true, fun hp => ?_, fun he => ?_⟩
  · exact absurd (h.1 hp).1 (by decide)
  · exact absurd (h.2.1.1.mp he) (by decide)

end Digest

end Blocklist
