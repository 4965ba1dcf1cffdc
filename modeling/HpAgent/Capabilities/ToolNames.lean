import HpAgent.Capabilities.Contracts
import HpAgent.Library.Escape
import HpAgent.Library.Table

/-! # The tool names of capabilities

A model calls a capability by the name of a tool: the key of the capability with its punctuation written out, and the version
of its contract.

* `toolName`: the name.
* `CapabilityActivities.build`: the bindings by their tool names, and what is required of them.
* `toolName_inj`: two capabilities, or two versions of one, have two names.
* `toolName_identifies`: a name that is bound stands for one capability and version. -/

namespace HpAgent.Capabilities

open Library Records

/-! ### Names -/

/-- `CAPABILITY_TOOL_PREFIX`. -/
def capabilityToolPrefix : String := "capability__"

/-- The key with its punctuation written out. -/
def encodedKey (key : List Char) : List Char :=
  replaceOne '-' ['_', 'h'] (replaceOne '.' ['_', 'd'] (replaceOne '_' ['_', 'u'] key))

/-- `CapabilityBinding.tool_name`. -/
def toolName (key : String) (contractVersion : ℕ) : String :=
  capabilityToolPrefix ++ String.ofList (encodedKey key.toList) ++ "__v" ++ toString contractVersion

/-- What the three replacements amount to. -/
def punctuation : Escaping Char where
  escape := '_'
  code c := if c = '_' then some 'u' else if c = '.' then some 'd' else if c = '-' then some 'h' else none
  escape_code := rfl
  code_inj c d x := by
    split_ifs <;> simp_all
    all_goals (rintro rfl; decide)
  code_ne c x h := by
    rintro rfl
    split_ifs at h <;> simp at h

theorem encodedKey_eq (key : List Char) : encodedKey key = punctuation.write key := by
  unfold encodedKey
  show replaceOne '-' ['_', 'h'] (replaceOne '.' ['_', 'd'] (key.flatMap _)) = key.flatMap _
  rw [replaceOne_flatMap, replaceOne_flatMap]
  refine List.flatMap_congr fun c _ => ?_
  unfold Escaping.letter punctuation
  by_cases hu : c = '_'
  · rw [if_pos hu]; simp [hu]; rfl
  · by_cases hd : c = '.'
    · rw [if_neg hu]; simp [hd]; rfl
    · by_cases hh : c = '-'
      · rw [if_neg hu]; simp [hh]; rfl
      · rw [if_neg hu]; simp [hu, hd, hh, replaceOne]

theorem toList_toolName (key : String) (contractVersion : ℕ) :
    (toolName key contractVersion).toList =
      capabilityToolPrefix.toList ++ (punctuation.write key.toList ++ '_' :: '_' :: 'v' :: (toString contractVersion).toList) := by
  unfold toolName
  rw [encodedKey_eq]
  simp

/-- The decimal digits of a number determine it. -/
theorem decimal_inj {m n : ℕ} (h : (toString m).toList = (toString n).toList) : m = n := by
  have hdigits : Nat.toDigits 10 m = Nat.toDigits 10 n := by simpa using h
  have hvalue := congrArg (fun digits => Nat.ofDigitChars 10 digits 0) hdigits
  simpa only [Nat.ofDigitChars_ten_toDigits] using hvalue

/-- **Two capabilities, or two versions of one, have two tool names.**  The version starts at the first double underscore
after the prefix, because in the key every underscore has a letter after it. -/
theorem toolName_inj {key key' : String} {version version' : ℕ} :
    toolName key version = toolName key' version' ↔ key = key' ∧ version = version' := by
  constructor
  · intro h
    have hchars := congrArg String.toList h
    rw [toList_toolName, toList_toolName, List.append_cancel_left_eq] at hchars
    obtain ⟨hkey, hversion⟩ := punctuation.write_delimited hchars
    rw [List.cons.injEq] at hversion
    exact ⟨String.toList_inj.mp hkey, decimal_inj hversion.2⟩
  · rintro ⟨rfl, rfl⟩
    rfl

/-! ### Bindings -/

/-- `CapabilityBinding`: the capability, the version and the Workflow that carries it out. -/
structure CapabilityBinding where
  key : String
  contractVersion : ℕ
  workflowName : String
deriving DecidableEq, Repr

namespace CapabilityBinding

/-- The capability and the version. -/
def contract (b : CapabilityBinding) : String × ℕ := (b.key, b.contractVersion)

def toolName (b : CapabilityBinding) : String := Capabilities.toolName b.key b.contractVersion

theorem toolName_eq_iff {a b : CapabilityBinding} : a.toolName = b.toolName ↔ a.contract = b.contract := by
  unfold toolName contract
  rw [toolName_inj, Prod.mk.injEq]

end CapabilityBinding

/-- `self.bindings`. -/
abbrev ToolNames := Table String CapabilityBinding

/-- `{b.tool_name: b for b in bindings}`. -/
def byToolName (bindings : List CapabilityBinding) : ToolNames :=
  bindings.foldl (fun names b => names.insert b.toolName b) ∅

/-- The contracts of the registry that run in an execution of their own. -/
def isolated (registry : Registry) : List (String × ℕ) :=
  (registry.filter fun d => d.executionMode = .isolatedExecution).map fun d => (d.key, d.contractVersion)

/-- The checks of one binding. -/
def checkBinding (registry : Registry) (b : CapabilityBinding) : Verdict := do
  let definition ← registry.get b.key b.contractVersion
  require (definition.executionMode = .isolatedExecution ∧ b.workflowName ≠ "")
    (invalid "capability binding requires an isolated Workflow")
  require (b.toolName.length ≤ 64) (invalid "capability tool name exceeds provider limit")

/-- `CapabilityActivities.__init__`. -/
def bindTools (registry : Registry) (bindings : List CapabilityBinding) : Except FactError ToolNames := do
  let names := byToolName bindings
  require (names.keys.length = bindings.length) (invalid "duplicate capability tool")
  require ((∀ c ∈ isolated registry, c ∈ bindings.map CapabilityBinding.contract) ∧
    ∀ b ∈ bindings, b.contract ∈ isolated registry) (invalid "isolated capability definitions require exactly one binding")
  bindings.forM (checkBinding registry)
  pure names

section bindings

variable {registry : Registry} {bindings : List CapabilityBinding} {names : ToolNames}

/-- What stands under a name was put there. -/
theorem lookup_byToolName {name : String} {b : CapabilityBinding} (h : (byToolName bindings).lookup name = some b) :
    b ∈ bindings ∧ b.toolName = name := by
  induction bindings using List.reverseRecOn with
  | nil => cases h
  | append_singleton before last ih =>
      unfold byToolName at h ih
      rw [List.foldl_concat, Table.lookup_insert_ite] at h
      split at h
      · next hname =>
          obtain rfl := Option.some.inj h
          exact ⟨by simp, hname.symm⟩
      · have hbefore := ih h
        exact ⟨List.mem_append_left _ hbefore.1, hbefore.2⟩

/-- Every binding is found under its name, if no two are for one contract. -/
theorem byToolName_of_mem (hnodup : (bindings.map CapabilityBinding.contract).Nodup) {b : CapabilityBinding} (hb : b ∈ bindings) :
    (byToolName bindings).lookup b.toolName = some b := by
  induction bindings using List.reverseRecOn with
  | nil => cases hb
  | append_singleton before last ih =>
      rw [List.map_append, List.nodup_append] at hnodup
      unfold byToolName at ih ⊢
      rw [List.foldl_concat, Table.lookup_insert_ite]
      rw [List.mem_append, List.mem_singleton] at hb
      split
      · next hname =>
          have hcontract := CapabilityBinding.toolName_eq_iff.mp hname
          rcases hb with hbefore | rfl
          · exact absurd hcontract (hnodup.2.2 _ (List.mem_map_of_mem hbefore) _ (by simp))
          · rfl
      · next hname => exact ih hnodup.1 (hb.resolve_right fun heq => hname (by rw [heq]))

theorem mem_byToolName {name : String} : name ∈ byToolName bindings ↔ name ∈ bindings.map CapabilityBinding.toolName := by
  induction bindings using List.reverseRecOn with
  | nil => exact iff_of_false (AList.notMem_empty name) List.not_mem_nil
  | append_singleton before last ih =>
      unfold byToolName at ih ⊢
      rw [List.foldl_concat, AList.mem_insert, ih, List.map_append, List.mem_append, List.map_singleton, List.mem_singleton, or_comm]

/-- There are as many names as bindings exactly if no two bindings are for one contract. -/
theorem length_byToolName :
    (byToolName bindings).keys.length = bindings.length ↔ (bindings.map CapabilityBinding.contract).Nodup := by
  have hkeys : (byToolName bindings).keys.toFinset = (bindings.map CapabilityBinding.toolName).toFinset := by
    ext name
    rw [List.mem_toFinset, List.mem_toFinset, ← AList.mem_keys, mem_byToolName]
  have hcard := List.toFinset_card_of_nodup (AList.keys_nodup (byToolName bindings))
  rw [hkeys] at hcard
  rw [← hcard, ← @List.length_map _ _ bindings CapabilityBinding.toolName]
  have hnames : (bindings.map CapabilityBinding.toolName).toFinset.card = (bindings.map CapabilityBinding.toolName).length ↔
      (bindings.map CapabilityBinding.toolName).Nodup :=
    Multiset.toFinset_card_eq_card_iff_nodup (m := ((bindings.map CapabilityBinding.toolName : List String) : Multiset String))
  -- the names are those of the contracts
  have hinj : Function.Injective fun c : String × ℕ => Capabilities.toolName c.1 c.2 :=
    fun c d h => Prod.ext (toolName_inj.mp h).1 (toolName_inj.mp h).2
  rw [hnames, ← List.nodup_map_iff hinj, List.map_map]
  rfl

theorem bindTools_ok (h : bindTools registry bindings = .ok names) :
    names = byToolName bindings ∧ (bindings.map CapabilityBinding.contract).Nodup := by
  unfold bindTools require at h
  dsimp only at h
  split at h
  · next hlength =>
      refine ⟨?_, length_byToolName.mp hlength⟩
      change (if _ then _ else _ : Verdict) >>= _ = _ at h
      split at h
      · change (bindings.forM (checkBinding registry)) >>= _ = _ at h
        cases hchecks : bindings.forM (checkBinding registry) with
        | error e =>
            rw [hchecks] at h
            cases h
        | ok u =>
            rw [hchecks] at h
            exact (Except.ok.inj h).symm
      · cases h
  · cases h

/-- **A tool name stands for one capability and version.**  Two of them never share a name; the bindings pass for duplicates
exactly if two are for one contract; and in the bindings that are accepted a name is found exactly if a binding has it. -/
theorem toolName_identifies (registry : Registry) (bindings : List CapabilityBinding) :
    (∀ key key' version version', toolName key version = toolName key' version' ↔ key = key' ∧ version = version') ∧
    ((byToolName bindings).keys.length = bindings.length ↔ (bindings.map CapabilityBinding.contract).Nodup) ∧
    ∀ names, bindTools registry bindings = .ok names → ∀ name b,
      (names.lookup name = some b ↔ b ∈ bindings ∧ b.toolName = name) ∧
      (names.lookup name = some b → ∀ key version, toolName key version = name ↔ (key, version) = b.contract) := by
  refine ⟨fun _ _ _ _ => toolName_inj, length_byToolName, fun names h name b => ?_⟩
  obtain ⟨rfl, hnodup⟩ := bindTools_ok h
  refine ⟨⟨lookup_byToolName, ?_⟩, fun hlookup key version => ?_⟩
  · rintro ⟨hb, rfl⟩
    exact byToolName_of_mem hnodup hb
  · obtain ⟨-, rfl⟩ := lookup_byToolName hlookup
    unfold CapabilityBinding.toolName CapabilityBinding.contract
    rw [toolName_inj, Prod.mk.injEq]

end bindings

/-- Two capabilities whose keys differ in their punctuation alone. -/
def punctuated (key : String) : Definition where
  key := key
  contractVersion := 1
  implementationVersion := "1"
  description := "Answer."
  inputSchema := ⟨"\x7b\x7d", [], []⟩
  outputSchema := ⟨"\x7b\x7d", [], []⟩
  executorKind := .fixedWorkflow
  executionMode := .isolatedExecution
  allowedSurfaces := ["chat"]
  requiredServices := []
  resourceOperations := []
  sideEffectPolicy := "read_only"
  limits := ⟨1, 60, 1, 0⟩
  maxAttempts := 1
  cancellationPolicy := "cooperative_bounded"
  verifierKeys := []
  executionPolicy := none

theorem toolName_identifies_punctuated :
    ∃ names, bindTools [punctuated "a_d", punctuated "a.d"] [⟨"a_d", 1, "W"⟩, ⟨"a.d", 1, "W"⟩] = .ok names ∧
      names.lookup "capability__a_dd__v1" = some ⟨"a.d", 1, "W"⟩ ∧
      ∀ key version, toolName key version = "capability__a_dd__v1" ↔ (key, version) = ("a.d", 1) := by
  have hok : bindTools [punctuated "a_d", punctuated "a.d"] [⟨"a_d", 1, "W"⟩, ⟨"a.d", 1, "W"⟩] =
      .ok (byToolName [⟨"a_d", 1, "W"⟩, ⟨"a.d", 1, "W"⟩]) := by rfl
  have hfound : (byToolName [⟨"a_d", 1, "W"⟩, ⟨"a.d", 1, "W"⟩]).lookup "capability__a_dd__v1" = some ⟨"a.d", 1, "W"⟩ := by
    decide +kernel
  exact ⟨_, hok, hfound, ((toolName_identifies _ _).2.2 _ hok "capability__a_dd__v1" ⟨"a.d", 1, "W"⟩).2 hfound⟩

end HpAgent.Capabilities
