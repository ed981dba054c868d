import Blocklist.Proofs.Options.LastMention

/-! Options written out and read back. Options that were read are written as a list of modifiers that mention each thing
once, and reading this list gives the same options. -/

namespace Blocklist

def IsSpelling (word : ResourceType → Text) : Prop := ∀ r, ResourceType.ofKeyword? (word r) = some r

/-- What can stand in a list of domains: no separator of either kind, no blanks around it, no capitals. -/
structure IsDomainEntry (e : Text) : Prop where
  entry : IsEntry (· == '|') e
  comma : ',' ∉ e
  small : e.lower = e

/-- A modifier that comes out of the reader's split as it went in. -/
structure IsModifierText (w : Text) : Prop where
  entry : IsEntry (· == ',') w
  small : w.lower = w

theorem isModifierText_domains {P : Text → Prop} {s : Scope} (h : s.From P) (hP : ∀ e, P e → IsDomainEntry e)
    (hs : s ≠ {}) : IsModifierText ("domain=".toList ++ s.written) := by
  have hname : Text.IsTrimmed "domain=".toList := ⟨by decide, by decide⟩
  have hlist : Text.IsTrimmed s.written :=
    .intercalate ['|'] (fun e he => (hP e (h.of_mem_entryTexts he)).entry.toIsTrimmed) (h.entryTexts_ne_nil hs)
  have hcomma : ',' ∉ "domain=".toList ++ s.written := by
    refine List.not_mem_append (by decide) fun hc => ?_
    obtain ⟨e, he, hin⟩ := Text.exists_infix_of_infix_intercalate (by decide) (by decide)
      ((List.singleton_infix_iff _ _).mpr hc)
    exact (hP e (h.of_mem_entryTexts he)).comma ((List.singleton_infix_iff _ _).mp hin)
  refine ⟨⟨by simpa using hname.append [] hlist, fun c hc => ?_⟩, ?_⟩
  · exact beq_eq_false_iff_ne.mpr fun heq => hcomma (heq ▸ hc)
  · rw [Text.lower_append, h.lower_written fun e he => (hP e he).small]
    congr 1

def isWordChar (c : Char) : Bool := c.toLower == c && !isBlank c && c != ',' && c != '#'

theorem isWordChar_iff {c : Char} :
    isWordChar c = true ↔ c.toLower = c ∧ isBlank c = false ∧ c ≠ ',' ∧ c ≠ '#' := by
  simp [isWordChar, and_assoc]

theorem isModifierText_of_isWordChar {w : Text} (hne : w ≠ []) (hw : w.all isWordChar = true) :
    IsModifierText w := by
  have h : ∀ c ∈ w, isWordChar c = true := List.all_eq_true.mp hw
  have hblank {c : Char} (hc : c ∈ w) : isBlank c = false := (isWordChar_iff.mp (h c hc)).2.1
  refine ⟨⟨⟨hne, Text.trim_eq_self (fun c hc => ?_) (fun c hc => ?_)⟩, fun c hc => ?_⟩, ?_⟩
  · exact hblank (List.mem_of_mem_head? hc)
  · exact hblank (List.mem_of_getLast? hc)
  · simpa using (isWordChar_iff.mp (h c hc)).2.2.1
  · rw [Text.lower, List.map_congr_left fun c hc => (isWordChar_iff.mp (h c hc)).1, List.map_id']

namespace Modifier

def written (word : ResourceType → Text) : Modifier → Text
  | .domains list => "domain=".toList ++ list
  | .party true => "third-party".toList
  | .party false => "~third-party".toList
  | .important => "important".toList
  | .type r true => word r
  | .type r false => '~' :: word r

end Modifier

namespace Options

def Mentions (t e : Text) : Prop :=
  ∃ w ∈ words t, ∃ list, w.lower = "domain=".toList ++ list ∧ e ∈ Scope.entries (· == '|') list.lower

/-- What a reading leaves: domains from entries that satisfy `P`, and no type both wanted and excluded. -/
structure From (P : Text → Prop) (o : Options) : Prop where
  initiators : o.initiators.From P
  disjoint : ∀ r, o.types.contains r = true → o.excludedTypes.contains r = false

variable {P : Text → Prop}

theorem from_default : From P {} := ⟨Scope.from_empty, fun _ _ => TypeSet.contains_empty _⟩

theorem From.mono {Q : Text → Prop} {o : Options} (h : From P o) (hPQ : ∀ e, P e → Q e) : From Q o :=
  ⟨h.initiators.mono hPQ, h.disjoint⟩

theorem lower_mem_tokens {t w : Text} (h : w ∈ words t) : w.lower ∈ tokens t := by
  obtain ⟨v, hv, rfl⟩ := List.mem_map.mp (List.mem_filter.mp h).1
  exact List.mem_map.mpr ⟨v, hv, rfl⟩

theorem exists_word_of_mem_tokens {t x : Text} (h : x ∈ tokens t) (hne : x ≠ []) : ∃ w ∈ words t, w.lower = x := by
  obtain ⟨v, hv, rfl⟩ := List.mem_map.mp h
  refine ⟨v.trim, List.mem_filter.mpr ⟨List.mem_map_of_mem hv, ?_⟩, rfl⟩
  simpa using mt Text.lower_eq_nil.mpr hne

theorem mentions_iff_listed {t e : Text} : Mentions t e ↔ Listed (tokens t) e := by
  constructor
  · rintro ⟨w, hw, list, hlist, he⟩
    have hmem : "domain=".toList ++ list ∈ tokens t := hlist ▸ lower_mem_tokens hw
    rw [lower_of_lower_domains (lower_of_mem_tokens hmem)] at he
    exact ⟨list, hmem, he⟩
  · rintro ⟨list, hmem, he⟩
    obtain ⟨w, hw, hlist⟩ := exists_word_of_mem_tokens hmem (by simp)
    refine ⟨w, hw, list, hlist, ?_⟩
    rwa [lower_of_lower_domains (lower_of_mem_tokens hmem)]

theorem from_read (t : Text) : From (Mentions t) (read t) := by
  have hsaid := saidBy_read t
  refine ⟨⟨fun d hd => ?_, fun d hd => ?_⟩, fun r hr => ?_⟩
  · exact ((hsaid.initiators.included d).mp hd).imp_left mentions_iff_listed.mpr
  · exact ((hsaid.initiators.excluded d).mp hd).imp_left mentions_iff_listed.mpr
  · exact Bool.eq_false_iff.mpr fun he => hsaid.disjoint r ⟨hr, he⟩

/-- Small letters apart, an entry lies in one of the modifiers. -/
theorem exists_word_of_mentions {t e : Text} (h : Mentions t e) : ∃ w ∈ words t, e <:+: w.lower := by
  obtain ⟨w, hw, list, hlist, he⟩ := h
  have hlower : list.lower <:+: w.lower := by
    rw [← Text.lower_lower w, hlist, Text.lower_append]
    exact (List.suffix_append _ _).isInfix
  exact ⟨w, hw, (Scope.isEntry_of_mem_entries he).2.trans hlower⟩

theorem isDomainEntry_of_mentions {t e : Text} (h : Mentions t e) : IsDomainEntry e := by
  obtain ⟨w, hw, hlower⟩ := exists_word_of_mentions h
  obtain ⟨-, -, list, -, he⟩ := h
  have hcomma := (Scope.isEntry_of_mem_entries hw).1.unseparated
  refine ⟨(Scope.isEntry_of_mem_entries he).1, fun hc => ?_, ?_⟩
  · simpa using hcomma ',' (Text.mem_of_mem_lower (by decide) (hlower.subset hc))
  · exact Text.lower_of_infix_lower hlower

theorem infix_of_mentions {m t e : Text} (h : Mentions t e) (hm : m.any Char.isLower = false) (hin : m <:+: e) :
    m <:+: t := by
  obtain ⟨w, hw, hlower⟩ := exists_word_of_mentions h
  exact (Text.infix_of_infix_lower hm (hin.trans hlower)).trans (Scope.isEntry_of_mem_entries hw).2

end Options

namespace Modifier

variable {word : ResourceType → Text}

theorem ofText?_written (hword : IsSpelling word) (m : Modifier) : ofText? (m.written word) = some m := by
  cases m with
  | domains list => exact ofText?_domains list
  | party third =>
    have hparty : ofText? "third-party".toList = some (.party true) ∧
        ofText? "~third-party".toList = some (.party false) := by decide
    cases third with
    | true => exact hparty.1
    | false => exact hparty.2
  | important =>
    have himportant : ofText? "important".toList = some .important := by decide
    exact himportant
  | type r wanted =>
    obtain ⟨k, hk, hw, rfl⟩ := ResourceType.exists_keyword (hword r)
    have htable := ofText?_keyword k hk
    rw [hw] at htable
    cases wanted with
    | true => exact htable.1
    | false => exact htable.2

theorem isWordChar_keyword :
    ∀ k ∈ ResourceType.keywords, k.1.toList ≠ [] ∧ k.1.toList.all isWordChar = true := by decide

/-- Apart from lists of domains, modifiers are single words. -/
theorem isWordChar_written (hword : IsSpelling word) {m : Modifier} (hm : ∀ list, m ≠ .domains list) :
    m.written word ≠ [] ∧ (m.written word).all isWordChar = true := by
  cases m with
  | domains list => exact absurd rfl (hm list)
  | party third =>
    have hparty : ("third-party".toList ≠ [] ∧ "third-party".toList.all isWordChar = true) ∧
        "~third-party".toList ≠ [] ∧ "~third-party".toList.all isWordChar = true := by decide
    cases third with
    | true => exact hparty.1
    | false => exact hparty.2
  | important =>
    have himportant : "important".toList ≠ [] ∧ "important".toList.all isWordChar = true := by decide
    exact himportant
  | type r wanted =>
    obtain ⟨k, hk, hw, rfl⟩ := ResourceType.exists_keyword (hword r)
    have hchars := isWordChar_keyword k hk
    rw [hw] at hchars
    cases wanted with
    | true => exact hchars
    | false => exact ⟨List.cons_ne_nil _ _, Bool.and_eq_true_iff.mpr ⟨by decide, hchars.2⟩⟩

end Modifier

namespace Options

def modifiers (o : Options) : List Modifier :=
  (o.thirdParty.map Modifier.party).toList ++ (if o.important then [.important] else []) ++
    o.types.toList.map (.type · true) ++ o.excludedTypes.toList.map (.type · false) ++
    (if o.initiators = {} then [] else [.domains o.initiators.written])

def written (word : ResourceType → Text) (o : Options) : Text :=
  [','].intercalate (o.modifiers.map (Modifier.written word))

theorem foldl_apply_types (wanted : Bool) (rs : List ResourceType) (o : Options) :
    (rs.map (Modifier.type · wanted)).foldl apply o =
      { o with
        types := rs.foldl (cond wanted TypeSet.insert TypeSet.erase) o.types
        excludedTypes := rs.foldl (cond wanted TypeSet.erase TypeSet.insert) o.excludedTypes } := by
  induction rs generalizing o with
  | nil => rfl
  | cons r rs ih =>
    rw [List.map_cons, List.foldl_cons, ih]
    cases wanted <;> rfl

theorem eq_of_domains_mem_modifiers {o : Options} {list : Text} (h : .domains list ∈ o.modifiers) :
    o.initiators ≠ {} ∧ list = o.initiators.written := by
  simp only [modifiers, List.mem_append, List.mem_map, Option.mem_toList, Option.map_eq_some_iff] at h
  split_ifs at h <;> simp_all

namespace From

variable {o : Options} {word : ResourceType → Text} (h : From P o)

section

variable (hP : ∀ e, P e → IsDomainEntry e)

include h hP

theorem foldl_modifiers : o.modifiers.foldl Options.apply {} = o := by
  have hparty : (o.thirdParty.map Modifier.party).toList.foldl Options.apply {} = { thirdParty := o.thirdParty } := by
    cases o.thirdParty <;> rfl
  have himportant : (if o.important then [Modifier.important] else []).foldl Options.apply
      { thirdParty := o.thirdParty } = { thirdParty := o.thirdParty, important := o.important } := by
    cases o.important <;> rfl
  have hdomains (p : Options) (hp : p.initiators = {}) :
      (if o.initiators = {} then [] else [Modifier.domains o.initiators.written]).foldl Options.apply p =
        { p with initiators := o.initiators } := by
    split_ifs with hempty
    · rw [hempty, ← hp]
      rfl
    · change { p with initiators := p.initiators.addAll (· == '|') o.initiators.written } = _
      rw [hp, h.initiators.addAll_written fun e he => ⟨(hP e he).entry, (hP e he).small⟩]
  -- what is wanted takes nothing out of the empty set, what is excluded nothing out of what is wanted
  have hwanted : o.types.toList.foldl TypeSet.erase .empty = .empty :=
    TypeSet.foldl_erase_eq_self fun r _ => TypeSet.contains_empty r
  have hexcluded : o.excludedTypes.toList.foldl TypeSet.erase o.types = o.types := by
    apply TypeSet.foldl_erase_eq_self
    intro r hr
    by_contra hboth
    rw [TypeSet.mem_toList, h.disjoint r (by simpa using hboth)] at hr
    cases hr
  rw [modifiers, List.foldl_append, List.foldl_append, List.foldl_append, List.foldl_append, hparty, himportant,
    foldl_apply_types, foldl_apply_types, hdomains _ rfl]
  simp only [cond_true, cond_false, TypeSet.foldl_insert_toList, hwanted, hexcluded]

theorem modifiers_ne_nil (ho : o ≠ {}) : o.modifiers ≠ [] := by
  intro hnil
  have hfold := h.foldl_modifiers hP
  rw [hnil] at hfold
  exact ho hfold.symm

variable (hword : IsSpelling word)

include hword

theorem isModifierText_written {m : Modifier} (hm : m ∈ o.modifiers) : IsModifierText (m.written word) := by
  by_cases hdomains : ∃ list, m = .domains list
  · obtain ⟨list, rfl⟩ := hdomains
    obtain ⟨hne, rfl⟩ := eq_of_domains_mem_modifiers hm
    exact isModifierText_domains h.initiators hP hne
  · obtain ⟨hne, hchars⟩ := Modifier.isWordChar_written hword fun list hlist => hdomains ⟨list, hlist⟩
    exact isModifierText_of_isWordChar hne hchars

theorem words_written : words (o.written word) = o.modifiers.map (Modifier.written word) := by
  apply Scope.entries_intercalate
  intro w hw
  obtain ⟨m, hm, rfl⟩ := List.mem_map.mp hw
  exact (h.isModifierText_written hP hword hm).entry

/-- Reading what was written gives the options. -/
theorem read_written : read (o.written word) = o := by
  have hstep (p : Options) (m : Modifier) (hm : m ∈ o.modifiers) :
      p.applyWord (m.written word) = p.apply m := by
    rw [Options.applyWord, (h.isModifierText_written hP hword hm).small, Modifier.ofText?_written hword]
  rw [read, h.words_written hP hword, List.foldl_map, List.foldl_ext _ _ _ hstep, h.foldl_modifiers hP]

theorem isTrimmed_written (ho : o ≠ {}) : Text.IsTrimmed (o.written word) := by
  apply Text.IsTrimmed.intercalate
  · intro w hw
    obtain ⟨m, hm, rfl⟩ := List.mem_map.mp hw
    exact (h.isModifierText_written hP hword hm).entry.toIsTrimmed
  · simpa using h.modifiers_ne_nil hP ho

end

include h

/-- Of what is written only the entries of the domain list can hold a `#`. -/
theorem exists_infix_entry (hword : IsSpelling word) {m : Text} (hcomma : ',' ∉ '#' :: m) (hbar : '|' ∉ '#' :: m)
    (hin : '#' :: m <:+: o.written word) : ∃ e, P e ∧ '#' :: m <:+: e := by
  obtain ⟨w, hw, hinw⟩ := Text.exists_infix_of_infix_intercalate hcomma (List.cons_ne_nil _ _) hin
  obtain ⟨d, hd, rfl⟩ := List.mem_map.mp hw
  by_cases hdomains : ∃ list, d = .domains list
  · obtain ⟨list, rfl⟩ := hdomains
    obtain ⟨-, rfl⟩ := eq_of_domains_mem_modifiers hd
    have hlist : '#' :: m <:+: o.initiators.written :=
      (Text.infix_append_of_not_mem (a := "domain=".toList) (by decide)).mp hinw
    obtain ⟨e, he, hine⟩ := Text.exists_infix_of_infix_intercalate hbar (List.cons_ne_nil _ _) hlist
    exact ⟨e, h.initiators.of_mem_entryTexts he, hine⟩
  · have hchars := (Modifier.isWordChar_written hword fun list hlist => hdomains ⟨list, hlist⟩).2
    have hhash := List.all_eq_true.mp hchars '#' (hinw.subset (by simp))
    exact absurd hhash (by decide)

end From

end Options

end Blocklist
