import ReportTriage.Lib.Joined
import ReportTriage.Rules

/-!
# The evidence of the rules

The classifier joins the description and the metadata values with spaces and looks for keywords in
the joint text; the priority rule looks for its signals in the description alone. What a keyword
found in the joint text says about the texts it was joined of, and what becomes of a result when
the report grows, is settled here.

## Main definitions

* `haystack`, `inspectedTexts` — the text the classifier searches, and the texts it is joined of.
* `foundInText`, `decisionList` — the evidence read text by text, and the rules on any evidence.
* `Straddles` — a keyword that some order of the metadata brings into the joint text.
* `LoadedReport.ExtendedBy` — a report with more to it.
* `keyword_evidence` — when the joint text says what the texts say.
* `fraud_kept` — what a longer report keeps.
* `fraud_signals` — when the priority rule sees what the classifier sees.
-/

namespace ReportTriage

/-- The lists `classify_report` searches for, in the order of its rules. -/
def keywordLists : List (List String) :=
  [fraudKeywords, abuseKeywords, spamKeywords, policyKeywords]

/-- What the rules may look for: plain characters, at most one space, and none at the end. -/
def IsKeyword (keyword : String) : Prop :=
  (∀ c ∈ keyword.toList, IsPlain c) ∧ keyword.toList.count ' ' ≤ 1 ∧
    keyword.toList.getLast?.any (· ≠ ' ')

instance : DecidablePred IsKeyword := fun k =>
  have := List.decidableBAll IsPlain k.toList
  inferInstanceAs (Decidable (_ ∧ _ ∧ _))

theorem isKeyword_of_mem : ∀ keywords ∈ keywordLists, ∀ k ∈ keywords, IsKeyword k := by
  decide +kernel

theorem isKeyword_of_signal : ∀ k ∈ moneySignals ++ externalLinkSignals, IsKeyword k := by
  decide +kernel

variable [UnicodeData] {description : String} {metadata metadata' : Metadata}
  {keyword : String} {keywords : List String}

/-- The text `classify_report` searches. -/
def haystack (description : String) (metadata : Metadata) : String :=
  description ++ " " ++ String.intercalate " " (metadata.map fun entry => entry.2.toStr)

/-- The texts it is joined of. -/
def inspectedTexts (description : String) (metadata : Metadata) : List String :=
  description :: metadata.map fun entry => entry.2.toStr

/-- A keyword of the list is in one of the texts. -/
def foundInText (description : String) (metadata : Metadata) (keywords : List String) : Bool :=
  (inspectedTexts description metadata).any fun text => containsAny text keywords

/-- The rules of `classify_report` on the evidence found: category and confidence. -/
def decisionList (reasonCode : String) (found : List String → Bool) : String × ℚ :=
  if reasonCode = "fraud_suspected" ∨ found fraudKeywords then
    ("fraud", if reasonCode = "fraud_suspected" then 0.88 else 0.7)
  else if reasonCode = "abusive_language" ∨ found abuseKeywords then ("abuse", 0.8)
  else if reasonCode = "spam" ∨ found spamKeywords then ("spam", 0.75)
  else if reasonCode = "policy_violation" ∨ found policyKeywords then ("policy", 0.7)
  else if reasonCode = "scam_link" then ("fraud", 0.72)
  else ("general", 0.4)

theorem classifyReport_eq (reasonCode : String) :
    ((classifyReport reasonCode description metadata).category,
      (classifyReport reasonCode description metadata).confidence) =
        decisionList reasonCode (containsAny (haystack description metadata)) := by
  unfold classifyReport decisionList haystack
  dsimp only
  split_ifs <;> rfl

/-! ## Where a keyword is found -/

theorem lower_of_isKeyword (h : IsKeyword keyword) : lower keyword = keyword := lower_plain h.1

theorem containsAny_iff {text : String} : containsAny text keywords = true ↔
    ∃ k ∈ keywords, isIn (lower k) (lower text) = true := List.any_eq_true

theorem foundInText_iff : foundInText description metadata keywords = true ↔
    ∃ k ∈ keywords, ∃ text ∈ inspectedTexts description metadata,
      isIn (lower k) (lower text) = true := by
  simp only [foundInText, List.any_eq_true, containsAny_iff]
  constructor
  · rintro ⟨text, htext, k, hk, hin⟩
    exact ⟨k, hk, text, htext, hin⟩
  · rintro ⟨k, hk, text, htext, hin⟩
    exact ⟨text, htext, k, hk, hin⟩

theorem foundInText_perm (h : metadata'.Perm metadata) :
    foundInText description metadata' keywords = foundInText description metadata keywords :=
  ((h.map _).cons description).any_eq

/-- The keyword, lowered, is a tail of one text, the joining space and a head of the next. -/
def AtBorder (keyword text next : String) : Prop :=
  Joined.Straddles ' ' (lower keyword).toList (lower text).toList (lower next).toList

theorem toList_lower_haystack : (lower (haystack description metadata)).toList =
    (lower description).toList ++ ' ' ::
      [' '].intercalate (metadata.map fun entry => (lower entry.2.toStr).toList) := by
  rw [haystack, lower_append_space, lower_intercalate, List.map_map]
  rfl

/-- **A keyword in the joint text** is in one of the texts, or at the border of two neighbours. -/
theorem isIn_haystack (h : IsKeyword keyword) :
    isIn (lower keyword) (lower (haystack description metadata)) = true ↔
      (∃ text ∈ inspectedTexts description metadata, isIn (lower keyword) (lower text) = true) ∨
      ∃ text next, [text, next] <:+: inspectedTexts description metadata ∧
        AtBorder keyword text next := by
  have hmap : (inspectedTexts description metadata).map (fun t => (lower t).toList) =
      (lower description).toList :: metadata.map fun e => (lower e.2.toStr).toList := by
    simp [inspectedTexts]
  simp only [isIn, decide_eq_true_eq, toList_lower_haystack, lower_of_isKeyword h, AtBorder]
  rw [Joined.infix_append_intercalate_iff h.2.1 h.2.2, ← hmap]
  refine or_congr (by simp) ⟨?_, ?_⟩
  · rintro ⟨x, y, hxy, hstraddles⟩
    obtain ⟨text, next, hwithin, rfl, rfl⟩ := Joined.adjacent_map_iff.mp hxy
    exact ⟨text, next, hwithin, hstraddles⟩
  · rintro ⟨text, next, hwithin, hstraddles⟩
    exact ⟨_, _, Joined.adjacent_map_iff.mpr ⟨text, next, hwithin, rfl, rfl⟩, hstraddles⟩

/-- What is found in one of the texts is found in the joint text. -/
theorem containsAny_haystack_of_foundInText (hkeywords : ∀ k ∈ keywords, IsKeyword k)
    (h : foundInText description metadata keywords = true) :
    containsAny (haystack description metadata) keywords = true := by
  obtain ⟨k, hk, htext⟩ := foundInText_iff.mp h
  exact containsAny_iff.mpr ⟨k, hk, (isIn_haystack (hkeywords k hk)).mpr (.inl htext)⟩

/-- A keyword without a space is at no border. -/
theorem foundInText_of_isIn (h : IsKeyword keyword) (hspace : ' ' ∉ keyword.toList)
    (hin : isIn (lower keyword) (lower (haystack description metadata)) = true) :
    ∃ text ∈ inspectedTexts description metadata, isIn (lower keyword) (lower text) = true := by
  rcases (isIn_haystack h).mp hin with htext | ⟨text, next, -, p, q, heq, -⟩
  · exact htext
  · rw [lower_of_isKeyword h] at heq
    simp [heq] at hspace

/-! ## Orders of the metadata -/

/-- The keyword is at the border of two texts that some order of the entries brings together. -/
def Straddles (keyword description : String) (metadata : Metadata) : Prop :=
  (∃ entry ∈ metadata, AtBorder keyword description entry.2.toStr) ∨
    ∃ entry next, [entry, next].Subperm metadata ∧ AtBorder keyword entry.2.toStr next.2.toStr

theorem straddles_iff : Straddles keyword description metadata ↔
    ∃ metadata', metadata'.Perm metadata ∧ ∃ text next,
      [text, next] <:+: inspectedTexts description metadata' ∧ AtBorder keyword text next := by
  constructor
  · rintro (⟨entry, hentry, hborder⟩ | ⟨entry, next, hsub, hborder⟩)
    · obtain ⟨rest, hperm⟩ := Joined.exists_perm_cons_iff.mpr hentry
      exact ⟨entry :: rest, hperm, _, _, List.IsPrefix.isInfix ⟨_, rfl⟩, hborder⟩
    · obtain ⟨metadata', hperm, hwithin⟩ := Joined.exists_perm_adjacent_iff.mpr hsub
      exact ⟨metadata', hperm, entry.2.toStr, next.2.toStr,
        List.infix_cons (Joined.adjacent_map_iff.mpr ⟨entry, next, hwithin, rfl, rfl⟩), hborder⟩
  · rintro ⟨metadata', hperm, text, next, hwithin, hborder⟩
    rcases List.infix_cons_iff.mp hwithin with hhead | hrest
    · cases metadata' with
      | nil => simp at hhead
      | cons entry rest =>
        simp only [List.map_cons, List.cons_prefix_cons] at hhead
        obtain ⟨rfl, rfl, -⟩ := hhead
        exact .inl ⟨entry, hperm.subset List.mem_cons_self, hborder⟩
    · obtain ⟨entry, next', hentries, rfl, rfl⟩ := Joined.adjacent_map_iff.mp hrest
      exact .inr ⟨entry, next', Joined.exists_perm_adjacent_iff.mp ⟨metadata', hperm, hentries⟩,
        hborder⟩

omit [UnicodeData] in
theorem decisionList_congr (reasonCode : String) {found found' : List String → Bool}
    (h : ∀ keywords ∈ keywordLists, found keywords = found' keywords) :
    decisionList reasonCode found = decisionList reasonCode found' := by
  simp only [keywordLists, List.forall_mem_cons] at h
  obtain ⟨hfraud, habuse, hspam, hpolicy, -⟩ := h
  simp only [decisionList, hfraud, habuse, hspam, hpolicy]

/-- **Keyword evidence, text by text.** In every order of the metadata entries the four keyword
tests of the classifier say whether a keyword is in the description or in one of the values, and
category and confidence are what the rules say on that evidence, if and only if no keyword
straddles two texts without one of its list being in some text. -/
theorem keyword_evidence (reasonCode description : String) (metadata : Metadata) :
    (∀ metadata', metadata'.Perm metadata →
      (∀ keywords ∈ keywordLists, containsAny (haystack description metadata') keywords =
        foundInText description metadata keywords) ∧
      ((classifyReport reasonCode description metadata').category,
        (classifyReport reasonCode description metadata').confidence) =
          decisionList reasonCode (foundInText description metadata)) ↔
    ∀ keywords ∈ keywordLists, (∃ k ∈ keywords, Straddles k description metadata) →
      foundInText description metadata keywords = true := by
  constructor
  · rintro h keywords hkeywords ⟨k, hk, hstraddles⟩
    obtain ⟨metadata', hperm, hborder⟩ := straddles_iff.mp hstraddles
    rw [← (h metadata' hperm).1 keywords hkeywords, containsAny_iff]
    exact ⟨k, hk, (isIn_haystack (isKeyword_of_mem _ hkeywords k hk)).mpr (.inr hborder)⟩
  · intro h metadata' hperm
    have htests : ∀ keywords ∈ keywordLists, containsAny (haystack description metadata') keywords =
        foundInText description metadata keywords := by
      intro keywords hkeywords
      have hkey := isKeyword_of_mem keywords hkeywords
      rw [Bool.eq_iff_iff]
      constructor
      · intro hfound
        obtain ⟨k, hk, hin⟩ := containsAny_iff.mp hfound
        rcases (isIn_haystack (hkey k hk)).mp hin with htext | hborder
        · rw [← foundInText_perm hperm]
          exact foundInText_iff.mpr ⟨k, hk, htext⟩
        · exact h keywords hkeywords ⟨k, hk, straddles_iff.mpr ⟨metadata', hperm, hborder⟩⟩
      · intro hfound
        exact containsAny_haystack_of_foundInText hkey ((foundInText_perm hperm).trans hfound)
    exact ⟨htests, (classifyReport_eq reasonCode).trans (decisionList_congr reasonCode htests)⟩

omit [UnicodeData] in
/-- A keyword can straddle two values: then the report is a fraud in one order of its metadata
only, and neither value has the keyword. -/
theorem keyword_at_border : ¬ ∀ (_ : UnicodeData) (reasonCode description : String)
    (texts texts' : List (String × String)), texts'.Perm texts →
    let metadata : Metadata := texts.map fun entry => (entry.1, .str entry.2)
    let metadata' : Metadata := texts'.map fun entry => (entry.1, .str entry.2)
    (∀ keywords ∈ keywordLists, containsAny (haystack description metadata) keywords =
        foundInText description metadata keywords) ∧
      ((classifyReport reasonCode description metadata).category,
        (classifyReport reasonCode description metadata).confidence) =
          decisionList reasonCode (foundInText description metadata) ∧
      (classifyReport reasonCode description metadata').category =
        (classifyReport reasonCode description metadata).category := by
  intro h
  have horder := (h asciiUnicode "other" "신고" [("a", "외부"), ("b", "메신저")]
    [("b", "메신저"), ("a", "외부")] (.swap ..)).2.2
  revert horder
  decide +kernel

/-! ## Longer reports -/

/-- A report with a longer description and further metadata entries, in any order. -/
structure LoadedReport.ExtendedBy (report longer : LoadedReport) : Prop where
  reasonCode : longer.reasonCode = report.reasonCode
  description : ∃ more, longer.description = report.description ++ more
  metadata : report.metadata.Subperm longer.metadata
  /-- A key has one entry. -/
  keys : (longer.metadata.map Prod.fst).Nodup

/-- The levels, from `low` to `critical`. -/
def priorityRank (priority : String) : ℕ :=
  ["low", "medium", "high", "critical"].idxOf priority

theorem containsAny_append (hkeywords : ∀ k ∈ keywords, IsKeyword k) {text : String}
    (h : containsAny text keywords = true) (more : String) :
    containsAny (text ++ more) keywords = true := by
  obtain ⟨k, hk, hin⟩ := containsAny_iff.mp h
  rw [lower_of_isKeyword (hkeywords k hk)] at hin
  refine containsAny_iff.mpr ⟨k, hk, ?_⟩
  rw [lower_of_isKeyword (hkeywords k hk)]
  exact isIn_lower_append (hkeywords k hk).1 hin more

theorem LoadedReport.ExtendedBy.foundInText {report longer : LoadedReport}
    (h : report.ExtendedBy longer) (hkeywords : ∀ k ∈ keywords, IsKeyword k)
    (hfound : foundInText report.description report.metadata keywords = true) :
    ReportTriage.foundInText longer.description longer.metadata keywords = true := by
  obtain ⟨more, hmore⟩ := h.description
  simp only [ReportTriage.foundInText, inspectedTexts, List.any_cons, List.any_map,
    Bool.or_eq_true, List.any_eq_true] at hfound ⊢
  rcases hfound with hdescription | ⟨entry, hentry, hvalue⟩
  · rw [hmore]
    exact .inl (containsAny_append hkeywords hdescription more)
  · exact .inr ⟨entry, h.metadata.subset hentry, hvalue⟩

omit [UnicodeData] in
theorem Metadata.get_eq_some (h : (metadata.map Prod.fst).Nodup) {key : String} {v : PyVal} :
    metadata.get key = some v ↔ (key, v) ∈ metadata := by
  rw [Metadata.get, List.lookup_eq_some_iff]
  constructor
  · rintro ⟨before, after, rfl, -⟩
    simp
  · intro hmem
    obtain ⟨before, after, rfl⟩ := List.append_of_mem hmem
    refine ⟨before, after, rfl, ?_⟩
    intro entry hentry
    rw [List.map_append, List.nodup_append] at h
    have := h.2.2 entry.1 (List.mem_map_of_mem hentry) key (by simp)
    simpa using Ne.symm this

/-- `bool(meta_price)`. -/
def metaPrice (metadata : Metadata) : Bool :=
  match metadata.get "price" with
  | some v => v.truthy
  | none => false

omit [UnicodeData] in
theorem LoadedReport.ExtendedBy.metaPrice {report longer : LoadedReport}
    (h : report.ExtendedBy longer) (hprice : metaPrice report.metadata = true) :
    ReportTriage.metaPrice longer.metadata = true := by
  have hkeys : (report.metadata.map Prod.fst).Nodup := by
    obtain ⟨l, hl, hsub⟩ := h.metadata
    exact (hl.map _).nodup_iff.mp (h.keys.sublist (hsub.map _))
  simp only [ReportTriage.metaPrice] at hprice ⊢
  split at hprice
  · rename_i v hget
    have hmem := h.metadata.subset ((Metadata.get_eq_some hkeys).mp hget)
    rw [(Metadata.get_eq_some h.keys).mpr hmem]
    exact hprice
  · cases hprice

/-- What makes a fraud critical, if it is in the description. -/
def signals : List String := moneySignals ++ externalLinkSignals

theorem scorePriority_fraud : scorePriority "fraud" description metadata =
    if containsAny description signals || metaPrice metadata then "critical" else "high" := by
  have hsignals : containsAny description signals = (containsAny description moneySignals ||
      containsAny description externalLinkSignals) := List.any_append
  rw [hsignals, Bool.or_right_comm]
  rfl

theorem scorePriority_fraud_eq_critical : scorePriority "fraud" description metadata = "critical" ↔
    containsAny description signals = true ∨ metaPrice metadata = true := by
  rw [scorePriority_fraud, ← Bool.or_eq_true]
  split_ifs with h <;> simp [h]

theorem category_eq (reasonCode : String) :
    (classifyReport reasonCode description metadata).category =
      (decisionList reasonCode (containsAny (haystack description metadata))).1 :=
  congrArg Prod.fst (classifyReport_eq reasonCode)

omit [UnicodeData] in
/-- Rule by rule, what makes a report a fraud. -/
theorem decisionList_fraud {reasonCode : String} {found : List String → Bool} :
    (decisionList reasonCode found).1 = "fraud" ↔
      reasonCode = "fraud_suspected" ∨ found fraudKeywords = true ∨
      reasonCode = "scam_link" ∧ found abuseKeywords = false ∧ found spamKeywords = false ∧
        found policyKeywords = false := by
  simp only [decisionList]
  by_cases hscam : reasonCode = "scam_link"
  · subst hscam
    split_ifs <;> simp_all
  · split_ifs <;> simp_all

/-- One of the rules between those of fraud fires on the text, and the first of them does not. -/
def displacesScamLink (report : LoadedReport) : Bool :=
  let text := haystack report.description report.metadata
  !containsAny text fraudKeywords && (containsAny text abuseKeywords ||
    containsAny text spamKeywords || containsAny text policyKeywords)

/-- **A fraud is kept by further evidence**, if the reason code says so or a fraud keyword is in
one of its texts; or if it is a scam link, and no rule before that one displaces it in the longer
report. The longer report is a fraud of no lower priority, and requires review. -/
theorem fraud_kept {report longer : LoadedReport} (hext : report.ExtendedBy longer)
    (hfraud : (triage report).category = "fraud")
    (hkept : report.reasonCode = "fraud_suspected" ∨
      foundInText report.description report.metadata fraudKeywords = true ∨
      report.reasonCode = "scam_link" ∧ displacesScamLink longer = false) :
    (triage longer).category = "fraud" ∧
      priorityRank (triage report).priority ≤ priorityRank (triage longer).priority ∧
      (triage longer).requiresReview = true := by
  have hlonger : (triage longer).category = "fraud" := by
    refine (category_eq _).trans (decisionList_fraud.mpr ?_)
    rw [hext.reasonCode]
    rcases hkept with hreason | hfound | ⟨hreason, hnot⟩
    · exact .inl hreason
    · have hkey := isKeyword_of_mem fraudKeywords (by simp [keywordLists])
      exact .inr (.inl (containsAny_haystack_of_foundInText hkey (hext.foundInText hkey hfound)))
    · simp only [displacesScamLink, Bool.and_eq_false_iff, Bool.not_eq_false',
        Bool.or_eq_false_iff] at hnot
      rcases hnot with hfound | ⟨⟨habuse, hspam⟩, hpolicy⟩
      · exact .inr (.inl hfound)
      · exact .inr (.inr ⟨hreason, habuse, hspam, hpolicy⟩)
  have hpriority : ∀ r : LoadedReport, (triage r).category = "fraud" →
      (triage r).priority = scorePriority "fraud" r.description r.metadata :=
    fun r hr => congrArg (fun c => scorePriority c r.description r.metadata) hr
  have hrisk : (triage longer).category ∈ highRiskCategories := by
    rw [hlonger]
    decide
  refine ⟨hlonger, ?_, decideRequiresReview_highRisk hrisk _ _⟩
  rw [hpriority report hfraud, hpriority longer hlonger]
  by_cases hcritical : scorePriority "fraud" report.description report.metadata = "critical"
  · -- What made the shorter report critical is still there.
    have hstays : scorePriority "fraud" longer.description longer.metadata = "critical" := by
      obtain ⟨more, hmore⟩ := hext.description
      rw [scorePriority_fraud_eq_critical, hmore] at *
      exact hcritical.imp (fun h => containsAny_append isKeyword_of_signal h more) hext.metaPrice
    rw [hcritical, hstays]
  · rw [scorePriority_fraud] at hcritical ⊢
    rw [if_neg (fun h => hcritical (if_pos h)), scorePriority_fraud]
    split_ifs <;> decide

omit [UnicodeData] in
/-- A fraud keyword in the description is enough. -/
theorem fraud_kept_keyword : ∃ (_ : UnicodeData) (report longer : LoadedReport),
    longer.description = report.description ++ " 광고" ∧ (triage longer).category = "fraud" ∧
      priorityRank (triage report).priority ≤ priorityRank (triage longer).priority ∧
      (triage longer).requiresReview = true := by
  let _ := asciiUnicode
  refine ⟨asciiUnicode, ⟨"r", "other", "선입금", []⟩,
    ⟨"r", "other", "선입금 광고", [("a", .str "욕설")]⟩, rfl, ?_⟩
  exact fraud_kept ⟨rfl, ⟨" 광고", rfl⟩, List.nil_subperm, by decide⟩ (by decide +kernel)
    (.inr (.inl (by decide +kernel)))

omit [UnicodeData] in
/-- The scam link rule comes after the rules of abuse, spam and policy, so text of theirs takes
the report to another category, here to one without review. -/
theorem scam_link_displaced : ¬ ∀ (_ : UnicodeData) (report longer : LoadedReport),
    report.ExtendedBy longer → (triage report).category = "fraud" →
    (triage longer).category = "fraud" ∧
      priorityRank (triage report).priority ≤ priorityRank (triage longer).priority ∧
      (triage longer).requiresReview = true := by
  intro h
  have hlonger := (h asciiUnicode ⟨"r", "scam_link", "https://bad.example", []⟩
    ⟨"r", "scam_link", "https://bad.example 광고", []⟩ ⟨rfl, ⟨" 광고", rfl⟩, .refl _, by decide⟩
    (by decide +kernel)).2.2
  revert hlonger
  decide +kernel

/-! ## What the two rules see -/

/-- The fraud keywords that contain a signal, and are found where they are. -/
def signalKeywords : List String := ["선입금", "예약금", "계좌이체", "카톡으로"]

omit [UnicodeData] in
theorem signal_of_keyword : ∀ k ∈ signalKeywords, IsKeyword k ∧ ' ' ∉ k.toList ∧
    ∃ signal ∈ signals, signal.toList <:+: k.toList := by decide +kernel

theorem foundInText_signals_of_keyword : ∀ k ∈ signalKeywords,
    containsAny (haystack description metadata) [k] = true →
    foundInText description metadata signals = true := by
  intro k hk hfound
  obtain ⟨hkey, hspace, signal, hsignal, hwithin⟩ := signal_of_keyword k hk
  obtain ⟨k', hk', hin⟩ := containsAny_iff.mp hfound
  rw [List.mem_singleton.mp hk'] at hin
  obtain ⟨text, htext, hin⟩ := foundInText_of_isIn hkey hspace hin
  refine foundInText_iff.mpr ⟨signal, hsignal, text, htext, ?_⟩
  rw [lower_of_isKeyword hkey] at hin
  rw [lower_of_isKeyword (isKeyword_of_signal signal hsignal)]
  simp only [isIn, decide_eq_true_eq] at hin ⊢
  exact hwithin.trans hin

/-- **The priority rule sees what the classifier sees**, if the signal is in the description or
the metadata has a price; and not otherwise. That goes for the signals in any of the texts, and
for the fraud keywords that contain one, wherever the classifier finds them. -/
theorem fraud_signals {reasonCode : String}
    (hfraud : (classifyReport reasonCode description metadata).category = "fraud") :
    ((foundInText description metadata signals = true →
        scorePriority (classifyReport reasonCode description metadata).category description
          metadata = "critical") ↔
      (foundInText description metadata signals = true →
        containsAny description signals = true ∨ metaPrice metadata = true)) ∧
    ∀ k ∈ signalKeywords, containsAny (haystack description metadata) [k] = true →
      foundInText description metadata signals = true ∧
      (scorePriority (classifyReport reasonCode description metadata).category description
          metadata = "critical" ↔
        containsAny description signals = true ∨ metaPrice metadata = true) := by
  rw [hfraud, scorePriority_fraud_eq_critical]
  exact ⟨.rfl, fun k hk hfound => ⟨foundInText_signals_of_keyword k hk hfound, .rfl⟩⟩

omit [UnicodeData] in
/-- With a signal in the description the report is critical. -/
theorem fraud_signals_description : ∃ _ : UnicodeData,
    scorePriority (classifyReport "other" "예약금" []).category "예약금" [] = "critical" := by
  let _ := asciiUnicode
  exact ⟨asciiUnicode, ((fraud_signals (by decide +kernel)).2 "예약금" (by decide)
    (by decide +kernel)).2.mpr (.inl (by decide +kernel))⟩

omit [UnicodeData] in
/-- With the signal in a metadata value it is not. -/
theorem signal_in_metadata : ¬ ∀ (_ : UnicodeData) (reasonCode description : String)
    (metadata : Metadata), (classifyReport reasonCode description metadata).category = "fraud" →
    foundInText description metadata signals = true →
    scorePriority (classifyReport reasonCode description metadata).category description metadata =
      "critical" := by
  intro h
  have hcritical := h asciiUnicode "other" "신고" [("chat_excerpt", .str "예약금 먼저 보내주세요")]
    (by decide +kernel) (by decide +kernel)
  revert hcritical
  decide +kernel

end ReportTriage
