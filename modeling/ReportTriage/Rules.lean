import ReportTriage.Text

/-!
# The triage rules

The four pure services: classification, priority, review and routing. `triage` is their
composition, which no single function of the program computes; the workflow spreads it over
five activities.
-/

namespace ReportTriage

/-! ## Classification -/

def fraudKeywords : List String := ["선입금", "예약금", "외부 메신저", "카톡으로", "직거래 안됨", "계좌이체"]
def spamKeywords : List String := ["광고", "홍보", "이벤트 당첨", "지금 클릭", "도배"]
def abuseKeywords : List String := ["욕설", "씨발", "개새끼", "죽여", "협박", "혐오"]
def policyKeywords : List String := ["불법", "금지 품목", "의약품", "주류", "담배"]

structure ClassificationResult where
  category : String
  confidence : ℚ
  reasoningSummary : String
  deriving DecidableEq, Repr

section
variable [UnicodeData]

/-- `_contains_any`. -/
def containsAny (text : String) (keywords : List String) : Bool :=
  let lowered := lower text
  keywords.any fun k => isIn (lower k) lowered

/-- `classify_report`: the first rule that fires. -/
def classifyReport (reasonCode description : String) (metadata : Metadata) :
    ClassificationResult :=
  let metaBlob := String.intercalate " " (metadata.map fun entry => entry.2.toStr)
  let haystack := description ++ " " ++ metaBlob
  if reasonCode = "fraud_suspected" ∨ containsAny haystack fraudKeywords then
    { category := "fraud"
      confidence := if reasonCode = "fraud_suspected" then 0.88 else 0.7
      reasoningSummary := "사기 의심 신호(선입금/외부 메신저 등)가 신고 본문에서 감지됨" }
  else if reasonCode = "abusive_language" ∨ containsAny haystack abuseKeywords then
    { category := "abuse"
      confidence := 0.8
      reasoningSummary := "욕설/협박/혐오 표현 키워드가 감지됨" }
  else if reasonCode = "spam" ∨ containsAny haystack spamKeywords then
    { category := "spam"
      confidence := 0.75
      reasoningSummary := "광고/도배 패턴이 감지됨" }
  else if reasonCode = "policy_violation" ∨ containsAny haystack policyKeywords then
    { category := "policy"
      confidence := 0.7
      reasoningSummary := "정책 위반 키워드(금지 품목 등)가 감지됨" }
  else if reasonCode = "scam_link" then
    { category := "fraud"
      confidence := 0.72
      reasoningSummary := "외부 스캠 링크 신고로 사기 카테고리로 분류" }
  else
    { category := "general"
      confidence := 0.4
      reasoningSummary := "특정 카테고리 신호가 약해 general로 분류" }

/-! ## Priority -/

def moneySignals : List String := ["선입금", "예약금", "계좌", "송금", "입금"]
def externalLinkSignals : List String := ["http://", "https://", "카톡", "telegram", "텔레그램"]

/-- `score_priority`. The signals are looked for in the description alone; of the metadata
only the price counts. -/
def scorePriority (category description : String) (metadata : Metadata) : String :=
  let metaPrice := match metadata.get "price" with
    | some v => v.truthy
    | none => false
  let hasMoneySignal := containsAny description moneySignals || metaPrice
  let hasExternalLink := containsAny description externalLinkSignals
  if category = "fraud" then
    if hasMoneySignal || hasExternalLink then "critical" else "high"
  else if category = "policy" then "high"
  else if category = "abuse" then "medium"
  else if category = "spam" then "medium"
  else if hasMoneySignal || hasExternalLink then "medium"
  else "low"

end

/-! ## Review and routing -/

def highRiskCategories : List String := ["fraud", "policy"]
def highPriorityLevels : List String := ["high", "critical"]
def lowConfidenceThreshold : ℚ := 0.6

/-- `decide_requires_review`. -/
def decideRequiresReview (category priority : String) (confidence : ℚ) : Bool :=
  if priority ∈ highPriorityLevels then true
  else if category ∈ highRiskCategories then true
  else if confidence < lowConfidenceThreshold then true
  else false

theorem decideRequiresReview_highRisk {category : String} (h : category ∈ highRiskCategories)
    (priority : String) (confidence : ℚ) :
    decideRequiresReview category priority confidence = true := by
  unfold decideRequiresReview
  split_ifs <;> rfl

theorem decideRequiresReview_lowConfidence {confidence : ℚ}
    (h : confidence < lowConfidenceThreshold) (category priority : String) :
    decideRequiresReview category priority confidence = true := by
  unfold decideRequiresReview
  split_ifs <;> rfl

/-- `_CATEGORY_TO_QUEUE`. -/
def categoryToQueue : List (String × String) :=
  [("fraud", "fraud-review"), ("spam", "spam-review"), ("abuse", "abuse-review"),
    ("policy", "general-review"), ("general", "general-review")]

/-- `route_to_queue`. -/
def routeToQueue (category : String) : String :=
  (categoryToQueue.lookup category).getD "general-review"

/-! ## Their composition -/

structure TriageResult where
  category : String
  priority : String
  requiresReview : Bool
  confidence : ℚ
  reasoningSummary : String
  routedQueue : String
  deriving DecidableEq, Repr

variable [UnicodeData]

/-- What the rules say of a report. -/
def triage (report : LoadedReport) : TriageResult :=
  let result := classifyReport report.reasonCode report.description report.metadata
  let priority := scorePriority result.category report.description report.metadata
  { category := result.category
    priority := priority
    requiresReview := decideRequiresReview result.category priority result.confidence
    confidence := result.confidence
    reasoningSummary := result.reasoningSummary
    routedQueue := routeToQueue result.category }

/-- The six rules, by category and confidence. -/
theorem classifyReport_cases (reasonCode description : String) (metadata : Metadata) :
    let result := classifyReport reasonCode description metadata
    result.category = "fraud" ∨ result.category = "abuse" ∨ result.category = "spam" ∨
      result.category = "policy" ∨ result.category = "general" ∧ result.confidence = 0.4 := by
  unfold classifyReport
  dsimp only
  split_ifs <;> simp

/-- Only abuse and spam reports go without human review. -/
theorem category_of_not_requiresReview {report : LoadedReport}
    (h : (triage report).requiresReview = false) :
    (triage report).category = "abuse" ∨ (triage report).category = "spam" := by
  have hcases := classifyReport_cases report.reasonCode report.description report.metadata
  simp only [triage] at h ⊢
  rcases hcases with hc | hc | hc | hc | ⟨hc, hconf⟩
  · rw [decideRequiresReview_highRisk (by rw [hc]; decide)] at h
    cases h
  · exact .inl hc
  · exact .inr hc
  · rw [decideRequiresReview_highRisk (by rw [hc]; decide)] at h
    cases h
  · rw [decideRequiresReview_lowConfidence (by rw [hconf]; norm_num [lowConfidenceThreshold])] at h
    cases h

end ReportTriage
