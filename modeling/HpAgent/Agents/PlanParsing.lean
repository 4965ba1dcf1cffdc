import HpAgent.Library.Json
import HpAgent.Library.Matching
import HpAgent.Requirements.Requirement

/-! # Reading plans and evaluations

What the planning and the evaluation make of the text of the model.  Both take a fence off the text and read it as JSON;
what is not of the expected shape falls back.

* `parsePlan_ok`, `parsePlan_recursion`: what `parsePlan` returns, and the only error that leaves it.
* `plans_and_evaluations_parsed`: when both give a result within their bounds.

A `Host` is the reader of JSON, on texts without lone surrogates, and what `str` makes of a value that is no text. -/

namespace HpAgent.Agents

open Library
open Requirements (isSpace strip)

/-- How `json.loads` fails: `RecursionError` is no `ValueError`. -/
inductive LoadsError where
  | value
  | recursion
deriving DecidableEq, Repr

structure Host where
  loads : List Char → Except LoadsError Json
  render : Json → List Char

/-! ### The fence -/

/-- Three backquotes. -/
def ticks : List Char := List.replicate 3 (Char.ofNat 96)

/-- `json`, in any case; the long s is an s too. -/
def namesJson : List Char → Bool
  | j :: s :: o :: n :: _ =>
      (j = 'j' || j = 'J') && (s = 's' || s = 'S' || s = 'ſ') && (o = 'o' || o = 'O') && (n = 'n' || n = 'N')
  | _ => false

/-- The two alternatives of the expression: the opening of the fence at the start of the text, the closing at its end. -/
def fenceMatcher : Matcher := fun previous s =>
  if previous = none ∧ ticks.isPrefixOf s then
    let named := if namesJson (s.drop 3) then 7 else 3
    some (named + run isSpace (s.drop named))
  else
    let blanks := run isSpace s
    let rest := s.drop blanks
    if ticks.isPrefixOf rest ∧ (rest.drop 3 = [] ∨ rest.drop 3 = ['\n']) then some (blanks + 3) else none

/-- The text inside the fence, when there is one. -/
def unfence (content : List Char) : List Char :=
  let text := strip content
  if ticks.isPrefixOf text then sub fenceMatcher [] text else text

/-! ### Plans -/

/-- `str(value)`. -/
def Host.str (host : Host) : Json → List Char
  | .str s => s
  | j => host.render j

/-- `str(value or default)`. -/
def Host.strOr (host : Host) (value : Json) (default : List Char) : List Char :=
  if value.truthy then host.str value else default

/-- `text.strip()[:limit]`. -/
def clip (limit : ℕ) (text : List Char) : List Char := (strip text).take limit

/-- The title and the objective of an entry of a plan; one without an objective is left out. -/
def planEntry (host : Host) : Json → Option (List Char × List Char)
  | .obj item =>
      let title := clip 160 (host.strOr (Json.get item "title") "执行步骤".toList)
      let objective := clip 4000 (host.strOr (Json.get item "objective") title)
      if objective = [] then none else some (title, objective)
  | _ => none

/-- `items`, where it can be sliced: the characters of a text are no entries. -/
def planItems : Json → Option (List Json)
  | .obj fields =>
      match fields.lookup "steps".toList with
      | none => some []
      | some (.arr items) => some items
      | some (.str s) => some (s.map fun c => .str [c])
      | some _ => none
  | _ => some []

/-- The one step of a plan that could not be read. -/
def fallbackPlan (fallbackObjective : List Char) : List (List Char × List Char) :=
  let fallback := clip 4000 fallbackObjective
  [("完成目标".toList, if fallback = [] then "完成用户请求".toList else fallback)]

/-- `_parse_plan`. -/
def parsePlan (host : Host) (content fallbackObjective : List Char) : Except LoadsError (List (List Char × List Char)) :=
  match host.loads (unfence content) with
  | .error .recursion => .error .recursion
  | .error .value => .ok (fallbackPlan fallbackObjective)
  | .ok value =>
      match ((((planItems value).getD []).take 8).filterMap (planEntry host)) with
      | [] => .ok (fallbackPlan fallbackObjective)
      | parsed => .ok parsed

/-! ### Evaluations -/

def evaluationDecisions : List (List Char) :=
  ["continue".toList, "replan".toList, "complete".toList, "fail".toList]

/-- `str(value.get("decision", ""))`. -/
def decisionText (host : Host) (value : List (List Char × Json)) : List Char :=
  match value.lookup "decision".toList with
  | none => []
  | some found => host.str found

/-- `_parse_evaluation`: the decision and its reason. -/
def parseEvaluation (host : Host) (content defaultDecision : List Char) : Except LoadsError (List Char × List Char) :=
  match host.loads (unfence content) with
  | .error .recursion => .error .recursion
  | .ok (.obj value) =>
      if evaluationDecisions.contains (decisionText host value) then
        .ok (decisionText host value, (host.strOr (Json.get value "reason") "model_evaluation".toList).take 500)
      else .ok (defaultDecision, "evaluation_contract_fallback".toList)
  | _ => .ok (defaultDecision, "evaluation_contract_fallback".toList)

/-! ### What is returned -/

/-- A step has a title and an objective within their bounds. -/
structure Titled (step : List Char × List Char) : Prop where
  title : step.1 ≠ [] ∧ step.1.length ≤ 160
  objective : step.2 ≠ [] ∧ step.2.length ≤ 4000

/-- One to eight steps. -/
def Planned (steps : List (List Char × List Char)) : Prop := 1 ≤ steps.length ∧ steps.length ≤ 8

/-- The entries that count: the first eight of the steps of an object. -/
def entries (value : Json) : List Json := ((planItems value).getD []).take 8

/-- The title of an entry is given, but it is nothing but white space, and the entry has an objective. -/
def BlankTitle (host : Host) (entry : Json) : Prop :=
  ∃ item, entry = .obj item ∧ (Json.get item "title").truthy ∧ strip (host.str (Json.get item "title")) = [] ∧
    (Json.get item "objective").truthy ∧ strip (host.str (Json.get item "objective")) ≠ []

section parsing

variable {host : Host} {content fallback : List Char}

theorem length_clip_le (limit : ℕ) (text : List Char) : (clip limit text).length ≤ limit := List.length_take_le _ _

theorem clip_eq_nil {limit : ℕ} (hlimit : limit ≠ 0) {text : List Char} : clip limit text = [] ↔ strip text = [] := by
  unfold clip
  rw [List.take_eq_nil_iff]
  simp [hlimit]

theorem fallbackPlan_titled (fallbackObjective : List Char) : ∀ step ∈ fallbackPlan fallbackObjective, Titled step := by
  intro step hstep
  obtain rfl := List.mem_singleton.mp hstep
  have htitle : "完成目标".toList ≠ [] ∧ "完成目标".toList.length ≤ 160 := by decide
  refine ⟨htitle, ?_⟩
  dsimp only
  by_cases hnil : clip 4000 fallbackObjective = []
  · rw [if_pos hnil]
    decide
  · rw [if_neg hnil]
    exact ⟨hnil, length_clip_le _ _⟩

theorem fallbackPlan_planned (fallbackObjective : List Char) : Planned (fallbackPlan fallbackObjective) :=
  ⟨Nat.le_refl 1, Nat.succ_le_succ (Nat.zero_le 7)⟩

/-- What an entry becomes has an objective within its bound, and its title is within its own. -/
theorem planEntry_bounds {entry : Json} {step : List Char × List Char} (h : planEntry host entry = some step) :
    step.1.length ≤ 160 ∧ step.2 ≠ [] ∧ step.2.length ≤ 4000 := by
  unfold planEntry at h
  split at h
  · next item =>
      dsimp only at h
      split at h
      · exact absurd h (by simp)
      · next hobjective =>
          obtain rfl := Option.some.inj h
          exact ⟨length_clip_le _ _, hobjective, length_clip_le _ _⟩
  · exact absurd h (by simp)

/-- Only a blank title leaves a step without one. -/
theorem planEntry_title {entry : Json} {step : List Char × List Char} (h : planEntry host entry = some step) :
    step.1 = [] ↔ BlankTitle host entry := by
  unfold planEntry at h
  split at h
  · next item =>
      dsimp only at h
      split at h
      · exact absurd h (by simp)
      · next hobjective =>
          obtain rfl := Option.some.inj h
          dsimp only
          constructor
          · intro htitle
            rw [htitle] at hobjective
            rw [clip_eq_nil (by decide)] at htitle
            have hgiven : (Json.get item "title").truthy = true := by
              by_contra hfalse
              rw [Host.strOr, if_neg hfalse] at htitle
              exact absurd htitle (by decide)
            rw [Host.strOr, if_pos hgiven] at htitle
            have hother : (Json.get item "objective").truthy = true := by
              by_contra hfalse
              rw [Host.strOr, if_neg hfalse] at hobjective
              exact hobjective (by decide)
            rw [Host.strOr, if_pos hother, clip_eq_nil (by decide)] at hobjective
            exact ⟨item, rfl, hgiven, htitle, hother, hobjective⟩
          · rintro ⟨item', heq, hgiven, htitle, -, -⟩
            obtain rfl := Json.obj.inj heq
            rw [clip_eq_nil (by decide), Host.strOr, if_pos hgiven]
            exact htitle
  · exact absurd h (by simp)

/-- An entry with a blank title is a step all the same. -/
theorem BlankTitle.entry {entry : Json} (h : BlankTitle host entry) : ∃ step, planEntry host entry = some step := by
  obtain ⟨item, rfl, -, -, hgiven, hobjective⟩ := h
  refine ⟨(clip 160 (host.strOr (Json.get item "title") "执行步骤".toList), clip 4000 (host.str (Json.get item "objective"))), ?_⟩
  have hstr : ∀ title, host.strOr (Json.get item "objective") title = host.str (Json.get item "objective") :=
    fun title => if_pos hgiven
  show (if clip 4000 _ = [] then none else some _) = some _
  rw [hstr, if_neg fun hclip => hobjective ((clip_eq_nil (by decide)).mp hclip)]

theorem parsePlan_recursion (h : host.loads (unfence content) = .error .recursion) :
    parsePlan host content fallback = .error .recursion := by
  unfold parsePlan
  rw [h]

theorem parsePlan_value (h : host.loads (unfence content) = .error .value) :
    parsePlan host content fallback = .ok (fallbackPlan fallback) := by
  unfold parsePlan
  rw [h]

/-- The well-formed entries, when there is one, and the fallback when there is none. -/
theorem parsePlan_ok {value : Json} (h : host.loads (unfence content) = .ok value) :
    parsePlan host content fallback = .ok (if (entries value).filterMap (planEntry host) = [] then fallbackPlan fallback
      else (entries value).filterMap (planEntry host)) := by
  unfold parsePlan entries
  rw [h]
  dsimp only
  split
  · next hnil => rw [hnil, if_pos rfl]
  · next hne => rw [if_neg hne]

/-- The only error that leaves it. -/
theorem parsePlan_planned (h : host.loads (unfence content) ≠ .error .recursion) :
    ∃ steps, parsePlan host content fallback = .ok steps ∧ Planned steps := by
  cases hloads : host.loads (unfence content) with
  | error e =>
      cases e with
      | recursion => exact absurd hloads h
      | value => exact ⟨_, parsePlan_value hloads, fallbackPlan_planned fallback⟩
  | ok value =>
      refine ⟨_, parsePlan_ok hloads, ?_⟩
      by_cases hne : (entries value).filterMap (planEntry host) = []
      · rw [if_pos hne]
        exact fallbackPlan_planned fallback
      · rw [if_neg hne]
        have hentries : (entries value).length ≤ 8 := List.length_take_le _ _
        have hlength : ((entries value).filterMap (planEntry host)).length ≤ (entries value).length := List.length_filterMap_le _ _
        exact ⟨List.length_pos_iff.mpr hne, hlength.trans hentries⟩

theorem parseEvaluation_ok {default : List Char} (hdefault : default ∈ evaluationDecisions)
    (h : host.loads (unfence content) ≠ .error .recursion) :
    ∃ decision reason, parseEvaluation host content default = .ok (decision, reason) ∧ decision ∈ evaluationDecisions := by
  unfold parseEvaluation
  split
  · next hloads => exact absurd hloads h
  · next value hloads =>
      by_cases hmem : evaluationDecisions.contains (decisionText host value) = true
      · rw [if_pos hmem]
        exact ⟨_, _, rfl, List.contains_iff_mem.mp hmem⟩
      · rw [if_neg hmem]
        exact ⟨_, _, rfl, hdefault⟩
  · exact ⟨_, _, rfl, hdefault⟩

/-- What is asked of the two parsers on a text. -/
structure Parsed (host : Host) (content : List Char) : Prop where
  plan : ∀ fallback, ∃ steps, parsePlan host content fallback = .ok steps ∧ Planned steps ∧ ∀ step ∈ steps, Titled step
  wellFormed : ∀ fallback value, host.loads (unfence content) = .ok value →
    (∃ entry ∈ entries value, (planEntry host entry).isSome) →
      parsePlan host content fallback = .ok ((entries value).filterMap (planEntry host))
  evaluation : ∀ default ∈ evaluationDecisions, ∃ decision reason,
    parseEvaluation host content default = .ok (decision, reason) ∧ decision ∈ evaluationDecisions

end parsing

/-- **A plan and an evaluation are read from a text exactly when its JSON is not too deep for the reader and no entry that
counts has a blank title.** -/
theorem plans_and_evaluations_parsed (host : Host) (content : List Char) :
    Parsed host content ↔ host.loads (unfence content) ≠ .error .recursion ∧
      ∀ value, host.loads (unfence content) = .ok value → ∀ entry ∈ entries value, ¬BlankTitle host entry := by
  constructor
  · intro h
    constructor
    · intro hrecursion
      obtain ⟨steps, hsteps, -⟩ := h.plan []
      rw [parsePlan_recursion hrecursion] at hsteps
      cases hsteps
    · intro value hloads entry hentry hblank
      obtain ⟨step, hstep⟩ := hblank.entry
      have hwell := h.wellFormed [] value hloads ⟨entry, hentry, by rw [hstep]; rfl⟩
      obtain ⟨steps, hsteps, -, htitled⟩ := h.plan []
      rw [hwell] at hsteps
      obtain rfl := Except.ok.inj hsteps
      have hmem : step ∈ (entries value).filterMap (planEntry host) := List.mem_filterMap.mpr ⟨entry, hentry, hstep⟩
      exact (htitled step hmem).title.1 ((planEntry_title hstep).mpr hblank)
  · rintro ⟨hrecursion, hblank⟩
    refine ⟨fun fallback => ?_, fun fallback value hloads hsome => ?_, fun default hdefault => parseEvaluation_ok hdefault hrecursion⟩
    · obtain ⟨steps, hsteps, hplanned⟩ := @parsePlan_planned host content fallback hrecursion
      refine ⟨steps, hsteps, hplanned, ?_⟩
      cases hloads : host.loads (unfence content) with
      | error e =>
          cases e with
          | recursion => exact absurd hloads hrecursion
          | value =>
              rw [parsePlan_value hloads] at hsteps
              obtain rfl := Except.ok.inj hsteps
              exact fallbackPlan_titled fallback
      | ok value =>
          rw [parsePlan_ok hloads] at hsteps
          obtain rfl := Except.ok.inj hsteps
          split
          · exact fallbackPlan_titled fallback
          · intro step hstep
            obtain ⟨entry, hentry, hfound⟩ := List.mem_filterMap.mp hstep
            obtain ⟨hlength, hobjective⟩ := planEntry_bounds hfound
            have htitle : step.1 ≠ [] := fun hnil => hblank value hloads entry hentry ((planEntry_title hfound).mp hnil)
            exact ⟨⟨htitle, hlength⟩, hobjective⟩
    · rw [parsePlan_ok hloads]
      obtain ⟨entry, hentry, hfound⟩ := hsome
      obtain ⟨step, hstep⟩ := Option.isSome_iff_exists.mp hfound
      have hmem : step ∈ (entries value).filterMap (planEntry host) := List.mem_filterMap.mpr ⟨entry, hentry, hstep⟩
      rw [if_neg (List.ne_nil_of_mem hmem)]

/-- A plan whose only step has a title of two blanks. -/
def blankPlan : List Char := "\x7b\"steps\":[\x7b\"title\":\"  \",\"objective\":\"x\"\x7d]\x7d".toList

/-- A reader that reads this plan. -/
def blankHost : Host where
  loads text := if text = blankPlan then
      .ok (.obj [("steps".toList, .arr [.obj [("title".toList, .str "  ".toList), ("objective".toList, .str "x".toList)]])])
    else .error .value
  render _ := []

/-- The step has no title. -/
theorem blank_title_kept : ¬Parsed blankHost blankPlan := by
  intro h
  obtain ⟨steps, hsteps, -, htitled⟩ := h.plan []
  have hrun : parsePlan blankHost blankPlan [] = .ok [([], "x".toList)] := by decide +kernel
  rw [hrun] at hsteps
  obtain rfl := Except.ok.inj hsteps
  exact (htitled ([], "x".toList) (List.mem_singleton.mpr rfl)).title.1 rfl

end HpAgent.Agents
