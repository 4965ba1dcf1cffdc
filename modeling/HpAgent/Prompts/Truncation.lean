import HpAgent.Library.Suffix
import HpAgent.Prompts.Builder

/-! # The history that fits

The scan over the history charges an event with one text of its content, and the message of the event is made of another.

* `Plain`: an event whose message is as large as what it is charged with.
* `collect_eq`: with such events the scan is the one that keeps the longest suffix.
* `keeps_longest_suffix_iff`: when a call gets the longest suffix that fits. -/

namespace HpAgent.Prompts

open Library

section truncation

variable (std : StdLib)

/-- The estimated size of the message of an event. -/
def emittedCost (e : Event) : ℕ := messageTokens (emit std e)

/-- Nothing is emitted for the event that changes the estimate of what is charged: the metadata of a user message disappears in the
rounding; a tool result is a text that is not cut and has no error, or the text that replaces it has the same estimate. -/
def Plain (e : Event) : Prop :=
  match e.content with
  | .other _ => True
  | .dict content _ _ result error _ =>
      match e.eventType with
      | .userMessage => Absorbed (metadataText std e.metadata) content
      | .toolResult =>
          if truthy error then estimateTokens result = some (estimateText (errorText std error))
          else match result with
            | .str s => s.length ≤ 50000 ∨ estimateText (resultText std result) = estimateText s
            | _ => estimateTokens result = some (estimateText (resultText std result))
      | _ => True

variable {std}

theorem messageTokens_text (role : Role) (text : Text) : messageTokens ⟨role, .text text⟩ = estimateText text + 4 := rfl

theorem messageTokens_modelContent (role : Role) (text : Text) (toolCalls : List ToolCall) :
    messageTokens ⟨role, modelContent text toolCalls⟩ = estimateText text + 4 := by
  have huses : ((toolCalls.map fun tc => Part.toolUse tc.id tc.name tc.arguments).map partTokens).sum = 0 := by
    induction toolCalls with
    | nil => rfl
    | cons tc calls ih => rw [List.map_cons, List.map_cons, List.sum_cons, ih]; rfl
  unfold modelContent
  split
  · rfl
  · show (List.map partTokens (_ ++ _)).sum + 4 = _
    rw [List.map_append, List.sum_append, huses]
    by_cases h : text = []
    · subst h
      rfl
    · rw [if_neg h]
      rfl

theorem resultText_str {s : Text} (h : s.length ≤ 50000) : resultText std (.str s) = s := by
  have hstr : std.str (.str s) = s := rfl
  unfold resultText
  rw [hstr]
  exact if_neg (by omega)

/-- An event is charged with the size of its message exactly if it is plain. -/
theorem charge_eq_iff {e : Event} {events : List Event} (he : e ∈ consumed events) :
    charge e = some (emittedCost std e) ↔ Plain std e := by
  have htype : e.eventType = .userMessage ∨ e.eventType = .modelMessage ∨ e.eventType = .toolResult := by
    unfold consumed at he
    rw [List.mem_filter] at he
    simpa [or_assoc] using he.2
  obtain ⟨eventType, content, metadata⟩ := e
  dsimp only at htype
  have hplus : ∀ (o : Option ℕ) (n : ℕ), o.map (· + 4) = some (n + 4) ↔ o = some n := by
    intro o n
    cases o <;> simp
  unfold charge chargedText emittedCost emit Plain
  cases content with
  | other shown =>
      refine iff_of_true ?_ trivial
      rcases htype with rfl | rfl | rfl <;> rfl
  | dict content text summary result error toolCalls =>
      rcases htype with rfl | rfl | rfl
      · dsimp only
        rw [messageTokens_text, hplus, Option.some.injEq, eq_comm, estimateText_append_iff]
      · dsimp only
        rw [messageTokens_modelContent]
        exact iff_of_true rfl trivial
      · dsimp only
        rw [messageTokens_text, hplus]
        by_cases herror : truthy error = true
        · rw [if_pos herror, if_pos herror]
        · rw [if_neg herror, if_neg herror]
          cases result with
          | str s =>
              dsimp only
              rw [estimateTokens_str, Option.some.injEq]
              constructor
              · intro h
                exact .inr h.symm
              · rintro (hshort | h)
                · rw [resultText_str hshort]
                · exact h.symm
          | _ => rfl

/-- With the right charges the scan is the one over the sizes of the messages. -/
theorem collect_eq {cost : Event → ℕ} {remaining : ℤ} {usable rest : List Event} (hfits : Fits cost remaining usable)
    (hcharge : ∀ e t, e :: t <:+ rest.reverse ++ usable → Fits cost remaining t → charge e = some (cost e)) :
    collect remaining usable (usable.map cost).sum rest = some (fitSuffix cost remaining usable (usable.map cost).sum rest) := by
  induction rest generalizing usable with
  | nil => rfl
  | cons e rest ih =>
      have hmore : (e :: rest).reverse ++ usable = rest.reverse ++ (e :: usable) := by simp
      rw [hmore] at hcharge
      unfold collect fitSuffix
      rw [hcharge e usable (List.suffix_append _ _) hfits]
      dsimp only
      split
      · rfl
      · next hgo =>
          have hnext : Fits cost remaining (e :: usable) := by
            rcases not_and_or.mp hgo with hsum | hempty
            · refine .inr ?_
              rw [List.map_cons, List.sum_cons]
              omega
            · rw [not_not] at hempty
              subst hempty
              exact .inl le_rfl
          have hrest := ih hnext hcharge
          rw [List.map_cons, List.sum_cons, Nat.add_comm] at hrest
          exact hrest

theorem history_eq {events kept : List Event} {a : BuildArgs} {system : Text} (hbudget : 0 < a.tokenBudget)
    (h : collect (available a - estimateText system) [] 0 (consumed events).reverse = some kept) :
    history events a system = .ok kept := by
  unfold history
  rw [if_pos hbudget, h]

/-- The messages of a call: the system prompt, and the events that are kept. -/
def messagesOf (std : StdLib) (system : Text) (kept : List Event) : List Message :=
  (if system = [] then [] else [⟨.system, .text system⟩]) ++ kept.map (emit std)

/-- What a call should get: the system prompt and the longest suffix of the history whose messages fit what the budget leaves, the
newest event in any case; and an event is charged with the size of its message. -/
structure KeepsLongestSuffix (std : StdLib) (b : HarnessContextBuilder) (events : List Event) (a : BuildArgs) (system : Text) : Prop where
  messages : ∃ kept, build std b events a = .ok (messagesOf std system kept) ∧ kept <:+ consumed events ∧
    (consumed events ≠ [] → kept ≠ []) ∧
    (kept.length ≤ 1 ∨ (estimateText system + messagesTokens (kept.map (emit std)) : ℤ) ≤ available a) ∧
    ∀ s, s <:+ consumed events → Fits (emittedCost std) (available a - estimateText system) s → s <:+ kept
  charged : ∀ e t, e :: t <:+ consumed events → Fits (emittedCost std) (available a - estimateText system) t →
    charge e = some (emittedCost std e)

/-- **A call gets the longest suffix of the history that fits, each event charged with what is emitted for it, exactly if every event
that is charged is plain.** -/
theorem keeps_longest_suffix_iff {b : HarnessContextBuilder} {events : List Event} {a : BuildArgs} {system : Text}
    (hbudget : 0 < a.tokenBudget) (hsystem : systemContent std b events a = .ok system) :
    KeepsLongestSuffix std b events a system ↔
      ∀ e t, e :: t <:+ consumed events → Fits (emittedCost std) (available a - estimateText system) t → Plain std e := by
  constructor
  · intro h e t hsuffix hfits
    exact (charge_eq_iff (hsuffix.subset (by simp))).mp (h.charged e t hsuffix hfits)
  · intro hplain
    have hcharge : ∀ e t, e :: t <:+ consumed events → Fits (emittedCost std) (available a - estimateText system) t →
        charge e = some (emittedCost std e) :=
      fun e t hsuffix hfits => (charge_eq_iff (hsuffix.subset (by simp))).mpr (hplain e t hsuffix hfits)
    have hcollect := @collect_eq _ _ [] (consumed events).reverse (.inl (Nat.zero_le _))
      (by rw [List.reverse_reverse, List.append_nil]; exact hcharge)
    obtain ⟨hsuffix, hfits, hlongest⟩ := fitSuffix_longest (emittedCost std) (available a - estimateText system) (consumed events)
    refine ⟨⟨_, ?_, hsuffix, fun hne hnil => ?_, hfits.imp_right fun hsum => ?_, hlongest⟩, hcharge⟩
    · unfold build
      rw [hsystem]
      show (history events a system >>= fun kept => _) = _
      rw [history_eq hbudget hcollect]
      rfl
    · -- the newest event alone fits
      have hlast : [(consumed events).getLast hne] <:+ consumed events :=
        ⟨(consumed events).dropLast, List.dropLast_append_getLast hne⟩
      have hkept := (hlongest _ hlast (.inl le_rfl)).length_le
      rw [hnil] at hkept
      cases hkept
    · unfold messagesTokens
      rw [List.map_map]
      have hsame : (fitSuffix (emittedCost std) (available a - estimateText system) [] 0 (consumed events).reverse).map
          (messageTokens ∘ emit std) = (fitSuffix (emittedCost std) (available a - estimateText system) [] 0
            (consumed events).reverse).map (emittedCost std) := rfl
      rw [hsame]
      omega

end truncation

/-! ### A conversation -/

/-- Two messages with the metadata of their source, and a budget for one of them. -/
def sourced : Event :=
  ⟨.userMessage, .dict "hi".toList [] [] .null .null [],
    [("interaction_profile".toList, .str "web_chat".toList), ("interaction_source".toList, .str "web".toList)]⟩

def sourcedBuilder : HarnessContextBuilder := ⟨none, "Answer.".toList, true⟩

def sourcedArgs : BuildArgs := ⟨20, [], [], 20, 0, [], [], 0, 0, []⟩

def sourcedLib : StdLib := ⟨fun _ => [], fun template _ => template⟩

theorem sourced_system : systemContent sourcedLib sourcedBuilder [sourced, sourced] sourcedArgs = .ok "Answer.".toList := rfl

theorem keeps_longest_suffix_iff_sourced : KeepsLongestSuffix sourcedLib sourcedBuilder [sourced, sourced] sourcedArgs "Answer.".toList ↔
    ∀ e t, e :: t <:+ consumed [sourced, sourced] →
      Fits (emittedCost sourcedLib) (available sourcedArgs - estimateText "Answer.".toList) t → Plain sourcedLib e :=
  keeps_longest_suffix_iff (by decide) sourced_system

/-- Each of the two messages is charged with 5 tokens, and both are kept; their metadata makes each of them 23 tokens large, so that
the messages exceed the budget of 20. -/
theorem metadata_is_not_charged : charge sourced = some 5 ∧ emittedCost sourcedLib sourced = 23 ∧
    build sourcedLib sourcedBuilder [sourced, sourced] sourcedArgs = .ok (messagesOf sourcedLib "Answer.".toList [sourced, sourced]) ∧
    available sourcedArgs = 20 ∧
    ¬KeepsLongestSuffix sourcedLib sourcedBuilder [sourced, sourced] sourcedArgs "Answer.".toList := by
  have hcharged : charge sourced = some 5 := by decide +kernel
  have hemitted : emittedCost sourcedLib sourced = 23 := by decide +kernel
  refine ⟨hcharged, hemitted, rfl, rfl, fun h => ?_⟩
  have hsame := h.charged sourced [] ⟨[sourced], rfl⟩ (.inl (Nat.zero_le _))
  rw [hcharged, hemitted] at hsame
  cases hsame

end HpAgent.Prompts
