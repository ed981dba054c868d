import Blocklist.Proofs.Compilation.Views

/-! A compilation depends only on the text of its lists. What the lists are called, and where one ends and the next
begins, leaves no trace in the output. -/

namespace Blocklist

attribute [ext] Stats Ruleset

/-- The texts of the lists, one below the other. -/
def FilterList.joined (lists : List FilterList) : Text := ['\n'].intercalate (lists.map FilterList.text)

theorem FilterList.ofTextLines_joined {lists : List FilterList} (h : lists ≠ []) :
    Line.ofTextLines (joined lists) = lists.flatMap fun l => Line.ofTextLines l.text := by
  rw [Line.ofTextLines, joined, Text.splitOn_intercalate '\n' (by simpa using h), List.flatMap_map, List.map_flatMap]
  rfl

namespace Compilation

section

variable [Regex.Library]

/-- The rules of the lists are those on the lines of the joined text. -/
theorem view_all_joined (lists : List FilterList) :
    view .all (listRules lists) = (Line.ofTextLines (FilterList.joined lists)).filterMap Line.unplacedRule? := by
  by_cases h : lists = []
  · -- no list at all joins to the empty text, whose one line is silent
    rw [h]
    rfl
  · rw [FilterList.ofTextLines_joined h, view_all_listRules]

theorem invalid_run (s : Settings) (lists : List FilterList) :
    (run s lists).ruleset.stats.invalid =
      (lists.flatMap fun l => Line.ofTextLines l.text).countP Line.isInvalid := by
  have hinvalid : ((lists.map FilterList.read).flatMap ListReading.lines).countP LineReading.isInvalid =
      (lists.flatMap fun l => Line.ofTextLines l.text).countP Line.isInvalid := by
    induction lists with
    | nil => rfl
    | cons l lists ih =>
      rw [List.map_cons, List.flatMap_cons, List.countP_append, ih, List.flatMap_cons, List.countP_append,
        ← FilterList.invalid_read]
      rfl
  exact hinvalid

theorem invalid_joined (s : Settings) (lists : List FilterList) :
    (run s lists).ruleset.stats.invalid = (Line.ofTextLines (FilterList.joined lists)).countP Line.isInvalid := by
  rw [invalid_run]
  by_cases h : lists = []
  · rw [h]
    rfl
  · rw [FilterList.ofTextLines_joined h]

variable {s : Settings} {lists lists' : List FilterList}

theorem deduplicated_congr (h : view .all (listRules lists) = view .all (listRules lists')) :
    (run s lists).ruleset.stats.deduplicated = (run s lists').ruleset.stats.deduplicated := by
  have hlen (rules : List Rule) : (view .all rules).length = rules.length := by rw [view_all, List.length_map]
  have hdedup (lists : List FilterList) : (run s lists).ruleset.stats.deduplicated =
      (view .all (run s lists).rules).length - (Reduction.distinct (view .all (run s lists).rules)).length := by
    rw [← Reduction.view_distinct, hlen, hlen]
    rfl
  rw [hdedup, hdedup, view_rules_congr h]

theorem parsed_congr (h : view .all (listRules lists) = view .all (listRules lists')) :
    (run s lists).ruleset.stats.parsed = (run s lists').ruleset.stats.parsed := by
  rw [view_all, view_all] at h
  have hlen := congrArg List.length h
  rw [List.length_map, List.length_map] at hlen
  exact hlen

/-- Lists with the same rules, places apart, and as many invalid lines give the same output. -/
theorem ruleset_congr (h : view .all (listRules lists) = view .all (listRules lists'))
    (hinvalid : (run s lists).ruleset.stats.invalid = (run s lists').ruleset.stats.invalid) :
    (run s lists).ruleset = (run s lists').ruleset := by
  have hview (q : Choice) : view q (listRules lists) = view q (listRules lists') := by
    rw [← view_view_all, h, view_view_all]
  have hnetwork := hview .network
  have hbatches : (run s lists).ruleset.batches = (run s lists').ruleset.batches := batches_congr hnetwork
  have hcosmetic : (run s lists).ruleset.cosmetic = (run s lists').ruleset.cosmetic := by
    rw [cosmetic_run, cosmetic_run, hview .element]
  have hcount (lists : List FilterList) : (run s lists).ruleset.stats.finalCount =
      Batch.recordCount (run s lists).ruleset.batches + (run s lists).ruleset.cosmetic.size := rfl
  have hprint (lists : List FilterList) : (run s lists).ruleset.fingerprint =
      Digest.fingerprint (Digest.output (run s lists).ruleset.batches (run s lists).ruleset.cosmetic) := rfl
  apply Ruleset.ext
  · exact hbatches
  · exact hcosmetic
  · apply Stats.ext
    · exact parsed_congr h
    · exact hinvalid
    · exact stripped_congr hnetwork
    · exact deduplicated_congr h
    · exact merged_congr hnetwork
    · exact redundant_congr hnetwork
    · exact truncated_congr hnetwork
    · rw [hcount, hcount, hbatches, hcosmetic]
  · rw [hprint, hprint, hbatches, hcosmetic]

/-- Lists whose texts join to the same text give the same output. -/
theorem ruleset_eq_of_joined_eq (s : Settings) {lists lists' : List FilterList}
    (h : FilterList.joined lists = FilterList.joined lists') : (run s lists).ruleset = (run s lists').ruleset := by
  apply ruleset_congr
  · rw [view_all_joined, view_all_joined, h]
  · rw [invalid_joined, invalid_joined, h]

end

/-- Two lists, of which the first ends in a carriage return. -/
def twoLists : List FilterList :=
  [⟨"a".toList, "||ads.com^\r".toList⟩, ⟨"b".toList, "##.ad\n\n||ads.net^$".toList⟩]

def threeLists : List FilterList :=
  [⟨"x".toList, "||ads.com^\r\n##.ad".toList⟩, ⟨"y".toList, []⟩, ⟨"z".toList, "||ads.net^$".toList⟩]

theorem ruleset_twoLists :
    FilterList.joined twoLists = FilterList.joined threeLists ∧
    (run {} twoLists).ruleset = (run {} threeLists).ruleset := by
  have h : FilterList.joined twoLists = FilterList.joined threeLists := by decide
  exact ⟨h, ruleset_eq_of_joined_eq {} h⟩

end Compilation

end Blocklist
