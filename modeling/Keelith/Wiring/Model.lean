import Keelith.Lib.Kahn
import Keelith.Lib.Map
import Mathlib.Data.List.Sort

/-!
# Generated wiring

`internal/wiringcompiler/providers.go`, and the calls of providers in `internal/scaffold/wiring.go`:
providers are put in order, and the generated application calls them one after another.

- **Keys** are texts: a type, perhaps with `[name]` and `[group=group]`. A provider that returns
  `di.Out` has an output for each field.
- **Order** (`orderProviders`): Kahn's algorithm on the inputs that are not slices. An input that is
  a slice is a group; its members have no edge to the provider, and fields of `di.Out` are not
  looked up.
- **Calls** (`renderCalls`): an argument is the variable of a provider that was called before, or a
  slice of the members of a group that were called before.
- The rest of the generated text (imports, clean-ups, roots) is left out, and so is the `Graph`.
-/

namespace Keelith.Wiring

/-! ## Providers -/

/-- `Output`: a field of `di.Out`. -/
structure Output where
  field : String
  type : String
  group : String
  key : String
  deriving DecidableEq

/-- `Provider`, with `Constructor` and `Group` of its `Spec`. -/
structure Provider where
  constructor : String
  group : String
  name : String
  inputTypes : List String
  inputExpressions : List String
  outputType : String
  outputKey : String
  scope : String
  outputs : List Output
  deriving DecidableEq

/-- The errors. -/
inductive Error where
  /-- `duplicate provider output %q from %s and %s`. -/
  | duplicate (key previous constructor : String)
  /-- `provider %s requires group %s, but no matching grouped provider exists`. -/
  | missingGroup (constructor input : String)
  /-- `provider %s (application scope) cannot depend on transient grouped provider %s`. -/
  | transientGroup (constructor dependency : String)
  /-- `provider %s requires %s, but no provider supplies it`. -/
  | missing (constructor input : String)
  /-- `provider %s (application scope) cannot depend on transient provider %s`. -/
  | transient (constructor dependency : String)
  /-- `provider dependency graph contains a cycle: %s`. -/
  | cycle (description : String)
  /-- `scaffold: provider %s requires unresolved type %s`. -/
  | unresolved (constructor input : String)
  deriving DecidableEq

/-- The key of a group of values of a type. -/
def groupKey (type group : String) : String := "[]" ++ type ++ "[group=" ++ group ++ "]"

/-- `strings.HasPrefix(input, "[]")`. -/
def isSlice (input : String) : Bool := ['[', ']'].isPrefixOf input.toList

namespace Provider

/-- The output key, or else the output type. -/
def key (p : Provider) : String := if p.outputKey = "" then p.outputType else p.outputKey

/-- What the first loop of `orderProviders` writes back: the key. The scope that it has set is
overwritten. -/
def withKey (p : Provider) : Provider := { p with outputKey := p.key }

/-- The inputs that have an edge. -/
def plainInputs (p : Provider) : List String := p.inputTypes.filter fun input => !isSlice input

/-- The provider declares that it belongs to the group with the key `input`. -/
def declares (p : Provider) (input : String) : Bool :=
  p.group ≠ "" ∧ groupKey p.outputType p.group = input

end Provider

/-! ## orderProviders -/

/-- The first loop: no two providers have the same key. -/
def checkOutputs : List Provider → List Provider → Except Error Unit
  | _, [] => .ok ()
  | previous, p :: rest =>
    match previous.find? fun q => q.key = p.key with
    | some q => .error (.duplicate p.key q.constructor p.constructor)
    | none => checkOutputs (previous ++ [p]) rest

/-- `byOutput[input]`. -/
def supplier (providers : List Provider) (input : String) : Option Nat :=
  providers.findIdx? fun q => q.key = input

/-- The body of the second loop, for one input. -/
def checkInput (providers : List Provider) (p : Provider) (input : String) : Except Error Unit :=
  if isSlice input then
    match providers.filter fun q => q.declares input with
    | [] => .error (.missingGroup p.constructor input)
    | grouped =>
      match grouped.find? fun q => p.scope = "application" ∧ q.scope = "transient" with
      | some q => .error (.transientGroup p.constructor q.constructor)
      | none => .ok ()
  else
    match providers.find? fun q => q.key = input with
    | none => .error (.missing p.constructor input)
    | some q =>
      if p.scope = "application" ∧
        q.scope = "transient" then .error (.transient p.constructor q.constructor)
      else .ok ()

/-- The second loop. -/
def checkInputs (providers : List Provider) : Except Error Unit :=
  providers.forM fun p => p.inputTypes.forM fun input => checkInput providers p input

/-- `indegree[i]`. -/
def indegree (providers : List Provider) (i : Nat) : Nat :=
  (providers[i]?.map fun p => p.plainInputs.length).getD 0

/-- `dependents[u]`. -/
def dependents (providers : List Provider) (u : Nat) : List Nat :=
  (List.range providers.length).flatMap fun i =>
    ((providers[i]?.map Provider.plainInputs).getD []).filterMap fun input =>
      if supplier providers input = some u then some i else none

def describeCycle (providers : List Provider) (indegree : Nat → Nat) : String :=
  let parts := (List.range providers.length).filterMap fun i =>
    if 0 < indegree i then providers[i]?.map Provider.constructor else none
  if parts = [] then "unknown" else " -> ".intercalate parts

/-- The order of the indices, and what is left of the degrees. -/
def kahn (providers : List Provider) : Kahn.State :=
  Kahn.run (dependents providers) providers.length
    (Kahn.start providers.length (indegree providers))

/-- The providers with these indices. -/
def select (providers : List Provider) (indices : List Nat) : List Provider :=
  indices.filterMap fun i => providers[i]?.map Provider.withKey

def orderProviders (providers : List Provider) : Except Error (List Provider) := do
  checkOutputs [] providers
  checkInputs providers
  let s := kahn providers
  let ordered := select providers s.ordered
  if ordered.length = providers.length then .ok ordered
  else .error (.cycle (describeCycle providers s.indegree))

/-! ## The calls of the generated application -/

def generatedValueName (p : Provider) (index : Nat) : String :=
  let name := if p.name = "" then "provider" else p.name
  if index = 0 then name ++ "Value" else name ++ "Value" ++ toString (index + 1)

/-- What is in scope: `values` and `groupValues`. -/
structure Env where
  values : Map String String
  groupValues : Map String (List String)

/-- `groupValues[key]`. -/
def Env.group (env : Env) (key : String) : List String := (env.groupValues.lookup key).getD []

/-- A value of a provider, as an expression: its key, and its type and group. -/
structure Binding where
  key : String
  value : String
  type : String
  group : String
  deriving DecidableEq

/-- The value belongs to the group with the key `input`. -/
def Binding.joins (b : Binding) (input : String) : Bool :=
  b.group ≠ "" ∧ groupKey b.type b.group = input

/-- A value is put in scope with its key, and with its group, if it has one. -/
def Env.add (env : Env) (b : Binding) : Env where
  values := env.values.insert b.key b.value
  groupValues :=
    if b.group = "" then env.groupValues
    else env.groupValues.insert (groupKey b.type b.group)
      (env.group (groupKey b.type b.group) ++ [b.value])

/-- The values of a provider: what it returns, or the fields of it. -/
def Provider.bindings (p : Provider) (index : Nat) : List Binding :=
  let value := generatedValueName p index
  if p.outputs = [] then [⟨p.key, value, p.outputType, p.group⟩]
  else p.outputs.map fun o => ⟨o.key, value ++ "." ++ o.field, o.type, o.group⟩

/-- What is in scope after the call of a provider. -/
def Env.bind (env : Env) (index : Nat) (p : Provider) : Env := (p.bindings index).foldl Env.add env

/-- The text before the first `[group=`. -/
def cutGroup : List Char → List Char
  | [] => []
  | c :: rest => if "[group=".toList.isPrefixOf (c :: rest) then [] else c :: cutGroup rest

/-- The slice of a group, as an expression. -/
def sliceText (input : String) (items : List String) : String :=
  "[]" ++ String.ofList (cutGroup (input.toList.drop 2)) ++ "\x7b" ++
    ", ".intercalate items ++ "\x7d"

/-- The argument for an input. -/
def Env.argument (env : Env) (p : Provider) (input : String) (expression : Option String) :
    Except Error String :=
  match expression with
  | some text => if text ≠ "" then .ok text else resolved
  | none => resolved
where
  resolved : Except Error String :=
    match env.values.lookup input with
    | some value => .ok value
    | none =>
      if isSlice input ∧ env.group input ≠ [] then .ok (sliceText input (env.group input))
      else .error (.unresolved p.constructor input)

/-- The arguments: one for each input, then the expressions that are left. -/
def Env.arguments (env : Env) (p : Provider) : Except Error (List String) := do
  let resolved ← p.inputTypes.zipIdx.mapM fun input =>
    env.argument p input.1 p.inputExpressions[input.2]?
  .ok (resolved ++ p.inputExpressions.drop p.inputTypes.length)

/-- A call of a constructor. -/
structure Call where
  constructor : String
  arguments : List String
  deriving DecidableEq

/-- The loop of `renderBuiltinApplication` over the providers. -/
def renderCalls : Nat → Env → List Provider → Except Error (List Call)
  | _, _, [] => .ok []
  | index, env, p :: rest => do
    let arguments ← env.arguments p
    let calls ← renderCalls (index + 1) (env.bind index p) rest
    .ok (⟨p.constructor, arguments⟩ :: calls)

/-- The calls of the generated application. -/
def application (providers : List Provider) : Except Error (List Call) :=
  renderCalls 0 ⟨∅, ∅⟩ providers

end Keelith.Wiring
