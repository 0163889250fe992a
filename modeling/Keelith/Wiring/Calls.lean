import Keelith.Wiring.Order

/-!
# The arguments of the generated application

The generated application calls the providers in the order of `orderProviders`. What is in scope of
a call are the values of the calls before (`bindings`), so a group that has all its members before a
provider is passed to it as a whole (`generated_application`); the order itself does not put members
first.
-/

namespace Keelith.Wiring

variable {providers : List Provider}

/-! ## What is in scope -/

/-- The values of providers, the first of which has the given index. -/
def bindings : Nat → List Provider → List Binding
  | _, [] => []
  | index, p :: rest => p.bindings index ++ bindings (index + 1) rest

theorem bindings_append (index : Nat) (before after : List Provider) :
    bindings index (before ++ after) = bindings index before ++
      bindings (index + before.length) after := by
  induction before generalizing index with
  | nil => rfl
  | cons p before ih =>
    simp only [List.cons_append, bindings, ih, List.append_assoc, List.length_cons]
    rw [Nat.add_right_comm, Nat.add_assoc index]

/-- The members of a group, in the order of the calls. -/
def members (bs : List Binding) (input : String) : List String :=
  (bs.filter fun b => b.joins input).map Binding.value

theorem lookup_foldl_add (bs : List Binding) (env : Env) (key : String) :
    ((bs.foldl Env.add env).values.lookup key).isSome ↔ (env.values.lookup key).isSome ∨
      ∃ b ∈ bs, b.key = key := by
  induction bs generalizing env with
  | nil => simp
  | cons b bs ih =>
    rw [List.foldl_cons, ih]
    by_cases hkey : b.key = key
    · subst hkey
      simp [Env.add]
    · simp [Env.add, Finmap.lookup_insert_of_ne _ (Ne.symm hkey), hkey]

theorem group_foldl_add (bs : List Binding) (env : Env) (input : String) :
    (bs.foldl Env.add env).group input = env.group input ++ members bs input := by
  induction bs generalizing env with
  | nil => simp [members]
  | cons b bs ih =>
    have hadd : (env.add b).group input = env.group input ++
        if b.joins input then [b.value] else [] := by
      unfold Env.add Env.group Binding.joins
      by_cases hgroup : b.group = ""
      · simp [hgroup]
      · by_cases hkey : groupKey b.type b.group = input
        · subst hkey
          simp [hgroup]
        · simp [hgroup, hkey, Finmap.lookup_insert_of_ne _ (Ne.symm hkey)]
    rw [List.foldl_cons, ih, hadd]
    by_cases hjoins : b.joins input <;> simp [members, hjoins]

/-- What is in scope after the calls of some providers. -/
def scope (index : Nat) (env : Env) (before : List Provider) : Env :=
  (bindings index before).foldl Env.add env

/-! ## The calls -/

/-- If every provider finds its arguments in scope, then the calls are those. -/
theorem renderCalls_eq_ok (index : Nat) (env : Env) (ps : List Provider)
    (h : ∀ (before : List Provider) (p : Provider) (after : List Provider),
      ps = before ++ p :: after →
      ∃ arguments, (scope index env before).arguments p = .ok arguments) :
    ∃ calls, renderCalls index env ps = .ok calls ∧
      ∀ (before : List Provider) (p : Provider) (after : List Provider), ps = before ++ p :: after →
        ∃ arguments, (scope index env before).arguments p = .ok arguments ∧
          calls[before.length]? = some ⟨p.constructor, arguments⟩ := by
  induction ps generalizing index env with
  | nil => exact ⟨[], rfl, fun before p after hps => by simp at hps⟩
  | cons p ps ih =>
    have hscope : ∀ before, scope index env (p :: before) =
      scope (index + 1) (env.bind index p) before := fun before => by
      simp [scope, bindings, Env.bind]
    obtain ⟨arguments, harguments⟩ := h [] p ps rfl
    obtain ⟨calls, hcalls, hget⟩ := ih (index + 1) (env.bind index p) fun before q after hps => by
      rw [← hscope]
      exact h (p :: before) q after (by rw [hps]; rfl)
    refine ⟨⟨p.constructor, arguments⟩ :: calls, ?_, fun before q after hps => ?_⟩
    · exact bind_eq_ok.mpr ⟨arguments, harguments, bind_eq_ok.mpr ⟨calls, hcalls, rfl⟩⟩
    · cases before with
      | nil =>
        obtain ⟨rfl, -⟩ := List.cons.inj hps
        exact ⟨arguments, harguments, rfl⟩
      | cons r before =>
        obtain ⟨rfl, hrest⟩ := List.cons.inj hps
        rw [hscope]
        exact hget before q after hrest

/-- The provider has the input at this position, and no expression for it. -/
def Provider.asks (p : Provider) (i : Nat) (input : String) : Prop :=
  p.inputTypes[i]? = some input ∧ p.inputExpressions[i]?.getD "" = ""

variable {input : String} {p : Provider} {ordered : List Provider}

theorem Env.argument_of_asks (env : Env) {i : Nat} (h : p.asks i input) :
    env.argument p input p.inputExpressions[i]? = Env.argument.resolved env p input := by
  unfold Env.argument
  split
  next text htext =>
    have hempty : text = "" := by simpa [htext] using h.2
    rw [if_neg (not_not_intro hempty)]
  next => rfl

/-- If all inputs without an expression are found, then there are arguments, one for each of
them. -/
theorem Env.arguments_eq_ok {env : Env}
    (h : ∀ i input, p.asks i input → ∃ text, Env.argument.resolved env p input = .ok text) :
    ∃ arguments, env.arguments p = .ok arguments ∧
      ∀ i input, p.asks i input → ∀ text, Env.argument.resolved env p input = .ok text →
        arguments[i]? = some text := by
  have hall : ∀ x ∈ p.inputTypes.zipIdx, ∃ text,
      env.argument p x.1 p.inputExpressions[x.2]? = .ok text := by
    rintro ⟨input, i⟩ hx
    have hinput : p.inputTypes[i]? = some input := List.mem_zipIdx_iff_getElem?.mp hx
    cases hexpression : p.inputExpressions[i]? with
    | none =>
      obtain ⟨text, htext⟩ := h i input ⟨hinput, by simp [hexpression]⟩
      exact ⟨text, htext⟩
    | some expression =>
      by_cases hempty : expression = ""
      · obtain ⟨text, htext⟩ := h i input ⟨hinput, by simp [hexpression, hempty]⟩
        exact ⟨text, by simpa [Env.argument, hempty] using htext⟩
      · exact ⟨expression, by simp [Env.argument, hempty]⟩
  obtain ⟨resolved, hresolved, hlength, hget⟩ := mapM_ok hall
  refine ⟨_, bind_eq_ok.mpr ⟨resolved, hresolved, rfl⟩, fun i input hasks text htext => ?_⟩
  have hi : resolved[i]? = some text :=
    hget i (input, i) text (by simp [hasks.1]) ((env.argument_of_asks hasks).trans htext)
  rw [List.getElem?_append_left (List.getElem?_eq_some_iff.mp hi).1, hi]

/-! ## Complete wiring -/

/-- Keys are different, scopes fit, and every input has a supplier that is not `di.Out`. -/
structure Wired (providers : List Provider) : Prop where
  keys : (providers.map Provider.key).Nodup
  scopes : ∀ p ∈ providers, ∀ input ∈ p.inputTypes, ∀ q ∈ providers, q.feeds input = true →
    ¬ clash p q
  supplied : ∀ p ∈ providers, ∀ input ∈ p.inputTypes, ∃ q ∈ providers, q.outputs = [] ∧
    q.feeds input = true

theorem Wired.checked (h : Wired providers) : Checked providers where
  keys := h.keys
  inputs p hp input hinput := by
    obtain ⟨q, hq, -, hfeeds⟩ := h.supplied p hp input hinput
    exact ⟨⟨q, hq, hfeeds⟩, h.scopes p hp input hinput⟩

/-- A provider that asks for a group stands after its members, and the key of the group is not that
of a value. -/
def GroupsFirst (ordered : List Provider) : Prop :=
  ∀ (before : List Provider) (p : Provider) (after : List Provider),
    ordered = before ++ p :: after →
    ∀ i input, p.asks i input → isSlice input = true →
      (∀ b ∈ bindings before.length (p :: after), b.joins input = false) ∧ ∀ b ∈ bindings 0 before,
        b.key ≠ input

/-- The argument for a group is the slice of all its members. -/
def GroupsPassed (ordered : List Provider) (calls : List Call) : Prop :=
  ∀ (before : List Provider) (p : Provider) (after : List Provider),
    ordered = before ++ p :: after →
    ∀ i input, p.asks i input → isSlice input = true → ∃ call, calls[before.length]? = some call ∧
      call.constructor = p.constructor ∧ call.arguments[i]? =
        some (sliceText input (members (bindings 0 ordered) input))

theorem members_append (l r : List Binding) (input : String) :
    members (l ++ r) input = members l input ++ members r input := by
  simp [members]

theorem members_eq_nil {bs : List Binding} (h : ∀ b ∈ bs, b.joins input = false) :
    members bs input = [] := by
  simpa [members] using h

/-- A value of a provider that is not `di.Out`. -/
theorem mem_bindings {ps : List Provider} {q : Provider} (hq : q ∈ ps) (houtputs : q.outputs = [])
    (index : Nat) :
    ∃ value, (⟨q.key, value, q.outputType, q.group⟩ : Binding) ∈ bindings index ps := by
  induction ps generalizing index with
  | nil => exact absurd hq List.not_mem_nil
  | cons p ps ih =>
    rcases List.mem_cons.mp hq with rfl | hq
    · exact ⟨generatedValueName q index,
        List.mem_append_left _ (by simp [Provider.bindings, houtputs])⟩
    · obtain ⟨value, hvalue⟩ := ih hq (index + 1)
      exact ⟨value, List.mem_append_right _ hvalue⟩

variable {before after : List Provider}

/-- A group all of whose members are in scope. -/
theorem resolved_group {q : Provider} (hslice : isSlice input = true)
    (hq : q ∈ before ++ p :: after) (houtputs : q.outputs = [])
    (hdeclares : q.declares input = true)
    (hfirst : ∀ b ∈ bindings before.length (p :: after), b.joins input = false)
    (hkey : ∀ b ∈ bindings 0 before, b.key ≠ input) :
    Env.argument.resolved (scope 0 ⟨∅, ∅⟩ before) p input =
      .ok (sliceText input (members (bindings 0 (before ++ p :: after)) input)) := by
  have hgroup : (scope 0 ⟨∅, ∅⟩ before).group input =
      members (bindings 0 (before ++ p :: after)) input := by
    rw [scope, group_foldl_add, bindings_append, members_append, Nat.zero_add,
      members_eq_nil hfirst]
    simp [Env.group]
  have hne : members (bindings 0 (before ++ p :: after)) input ≠ [] := by
    obtain ⟨value, hvalue⟩ := mem_bindings hq houtputs 0
    have : value ∈ members (bindings 0 (before ++ p :: after)) input :=
      List.mem_map.mpr ⟨_, List.mem_filter.mpr ⟨hvalue, hdeclares⟩, rfl⟩
    exact List.ne_nil_of_mem this
  have hnone : (scope 0 ⟨∅, ∅⟩ before).values.lookup input = none := by
    rw [← Option.not_isSome_iff_eq_none, scope, lookup_foldl_add]
    rintro (hin | ⟨b, hb, hinput⟩)
    · simp at hin
    · exact hkey b hb hinput
  unfold Env.argument.resolved
  rw [hnone, hgroup]
  exact if_pos ⟨hslice, hne⟩

/-- An input that is not a slice, with its supplier in scope. -/
theorem resolved_plain {q : Provider} (hq : q ∈ before) (houtputs : q.outputs = []) :
    ∃ text, Env.argument.resolved (scope 0 ⟨∅, ∅⟩ before) p q.key = .ok text := by
  obtain ⟨value, hvalue⟩ := mem_bindings hq houtputs 0
  have hsome : ((scope 0 ⟨∅, ∅⟩ before).values.lookup q.key).isSome := by
    rw [scope, lookup_foldl_add]
    exact .inr ⟨_, hvalue, rfl⟩
  obtain ⟨text, htext⟩ := Option.isSome_iff_exists.mp hsome
  exact ⟨text, by simp [Env.argument.resolved, htext]⟩

theorem Provider.key_withKey (p : Provider) : p.withKey.key = p.key := by
  unfold Provider.withKey Provider.key
  grind

section

variable (h : Wired providers) (hordered : Ordered providers ordered)

include h hordered

/-- What supplies an input, in the order. -/
theorem Wired.supplier_mem (hp : p ∈ ordered) (hinput : input ∈ p.inputTypes) :
    ∃ q ∈ ordered, q.outputs = [] ∧ q.feeds input = true ∧ q.outputKey = q.key := by
  obtain ⟨p, hmem, rfl⟩ := List.mem_map.mp (hordered.perm.mem_iff.mp hp)
  obtain ⟨q, hq, houtputs, hfeeds⟩ := h.supplied p hmem input hinput
  refine ⟨q.withKey, hordered.perm.mem_iff.mpr (List.mem_map_of_mem hq), houtputs, ?_,
    q.key_withKey.symm⟩
  rw [Provider.feeds, q.key_withKey]
  exact hfeeds

/-- Every input without an expression is found, and a group as a whole. -/
theorem Wired.resolved (hgroups : GroupsFirst ordered) (hsplit : ordered = before ++ p :: after)
    {i : Nat} (hasks : p.asks i input) :
    ∃ text, Env.argument.resolved (scope 0 ⟨∅, ∅⟩ before) p input = .ok text ∧
      (isSlice input = true → text = sliceText input (members (bindings 0 ordered) input)) := by
  have hinput : input ∈ p.inputTypes := List.mem_of_getElem? hasks.1
  obtain ⟨q, hq, houtputs, hfeeds, hkey⟩ :=
    h.supplier_mem hordered (p := p) (by simp [hsplit]) hinput
  subst hsplit
  cases hslice : isSlice input with
  | true =>
    obtain ⟨hfirst, hvalues⟩ := hgroups before p after rfl i input hasks hslice
    have hdeclares : q.declares input = true := by simpa [Provider.feeds, hslice] using hfeeds
    exact ⟨_, resolved_group hslice hq houtputs hdeclares hfirst hvalues, fun _ => rfl⟩
  | false =>
    obtain rfl : q.key = input := by simpa [Provider.feeds, hslice] using hfeeds
    have hplain : q.key ∈ p.plainInputs := List.mem_filter.mpr ⟨hinput, by simp [hslice]⟩
    rcases List.mem_append.mp hq with hbefore | hafter
    · obtain ⟨text, htext⟩ := resolved_plain (p := p) hbefore houtputs
      exact ⟨text, htext, by simp⟩
    · exact absurd hkey ((hordered.before before p after rfl q.key hplain).2 q hafter)

/-- The generated application, for providers in an order in which groups come first. -/
theorem Wired.application (hgroups : GroupsFirst ordered) :
    ∃ calls, application ordered = .ok calls ∧ GroupsPassed ordered calls := by
  have harguments : ∀ (before : List Provider) (p : Provider) (after : List Provider),
      ordered = before ++ p :: after →
        ∃ arguments, (scope 0 ⟨∅, ∅⟩ before).arguments p = .ok arguments ∧
          ∀ i input, p.asks i input → isSlice input = true →
            arguments[i]? = some (sliceText input (members (bindings 0 ordered) input)) := by
    intro before p after hsplit
    obtain ⟨arguments, hok, hget⟩ := Env.arguments_eq_ok fun i input hasks => by
      obtain ⟨text, htext, -⟩ := h.resolved hordered hgroups hsplit hasks
      exact ⟨text, htext⟩
    refine ⟨arguments, hok, fun i input hasks hslice => ?_⟩
    obtain ⟨text, htext, hgroup⟩ := h.resolved hordered hgroups hsplit hasks
    rw [← hgroup hslice]
    exact hget i input hasks text htext
  obtain ⟨calls, hcalls, hget⟩ := renderCalls_eq_ok 0 ⟨∅, ∅⟩ ordered fun before p after hsplit => by
    obtain ⟨arguments, hok, -⟩ := harguments before p after hsplit
    exact ⟨arguments, hok⟩
  refine ⟨calls, hcalls, fun before p after hsplit i input hasks hslice => ?_⟩
  obtain ⟨arguments, hok, hcall⟩ := hget before p after hsplit
  obtain ⟨arguments', hok', hgroup⟩ := harguments before p after hsplit
  obtain rfl := Except.ok.inj (hok.symm.trans hok')
  exact ⟨_, hcall, rfl, hgroup i input hasks hslice⟩

end

/-- What `orderProviders` accepts has no cycle and is in order. Providers that are wired and have no
cycle are accepted, and if every group comes first, then the generated application passes it as a
whole. -/
theorem generated_application (providers : List Provider) :
    (∀ ordered, orderProviders providers = .ok ordered → Acyclic providers ∧
      Ordered providers ordered) ∧
    (Wired providers → Acyclic providers → ∃ ordered, orderProviders providers = .ok ordered ∧
      (GroupsFirst ordered → ∃ calls, application ordered = .ok calls ∧
        GroupsPassed ordered calls)) := by
  refine ⟨fun ordered h => ⟨(orderProviders_eq_ok.mp h).2.1, ordered_of_orderProviders h⟩,
    fun hwired hacyclic => ?_⟩
  have hok := orderProviders_eq_ok.mpr ⟨hwired.checked, hacyclic, rfl⟩
  exact ⟨_, hok, hwired.application (ordered_of_orderProviders hok)⟩

/-- A way to check it. -/
theorem groupsFirst_of_take (h : ∀ k < ordered.length, ∀ p ∈ ordered[k]?, ∀ input ∈ p.inputTypes,
    isSlice input = true → (∀ b ∈ bindings k (ordered.drop k), b.joins input = false) ∧
      ∀ b ∈ bindings 0 (ordered.take k), b.key ≠ input) : GroupsFirst ordered := by
  rintro before p after rfl i input hasks hslice
  have := h before.length (by simp) p (by simp) input (List.mem_of_getElem? hasks.1) hslice
  simpa using this

namespace Shop

/-- A provider without expressions, with the key that `loadProvider` gives it. -/
def provider (constructor type name group : String) (inputs : List String) : Provider :=
  let key := type ++ (if name = "" then "" else "[" ++ name ++ "]") ++
    (if group = "" then "" else "[group=" ++ group ++ "]")
  ⟨constructor, group, constructor, inputs, [], type, key, "", []⟩

def orders : Provider := provider "NewOrders" "Handler" "orders" "http" []

def users : Provider := provider "NewUsers" "Handler" "users" "http" ["Store"]

def server : Provider :=
  provider "NewServer" "Server" "" "" ["Store", "[]Handler[group=http]",
    "Handler[users][group=http]"]

def store : Provider := provider "NewStore" "Store" "" "" []

/-- Two handlers of a group, a store, and a server that needs them. -/
def shop : List Provider := [orders, users, server, store]

theorem wired : Wired shop where
  keys := by decide
  scopes := by decide
  supplied := by decide

/-- The order of the calls. -/
def inOrder : List Provider := [orders, store, users, server]

theorem orderProviders_shop : orderProviders shop = .ok inOrder := by decide

theorem groups_passed : Wired shop ∧ Acyclic shop ∧ GroupsFirst inOrder ∧
    orderProviders shop = .ok inOrder ∧
    ∃ calls, application inOrder = .ok calls ∧ GroupsPassed inOrder calls := by
  have hfirst : GroupsFirst inOrder := groupsFirst_of_take (by decide)
  have hacyclic : Acyclic shop := ((generated_application shop).1 inOrder orderProviders_shop).1
  obtain ⟨ordered, hordered, hgroups⟩ := (generated_application shop).2 wired hacyclic
  obtain rfl := Except.ok.inj (orderProviders_shop.symm.trans hordered)
  exact ⟨wired, hacyclic, hfirst, orderProviders_shop, hgroups hfirst⟩

example : application inOrder = .ok
    [⟨"NewOrders", []⟩, ⟨"NewStore", []⟩, ⟨"NewUsers", ["NewStoreValue2"]⟩,
      ⟨"NewServer", ["NewStoreValue2", "[]Handler\x7bNewOrdersValue, NewUsersValue3\x7d",
        "NewUsersValue3"]⟩] := by
  decide

/-- Two constructors of a store that depend on nothing. -/
def twice : List Provider := [store, provider "NewMemoryStore" "Store" "" "" []]

/-- They are rejected, although there is no cycle and no input. -/
theorem twice_rejected : Acyclic twice ∧ (∀ p ∈ twice, p.inputTypes = []) ∧
    orderProviders twice = .error (.duplicate "Store" "NewStore" "NewMemoryStore") := by
  have hinputs : ∀ p ∈ twice, p.inputTypes = [] := by decide
  refine ⟨fun i h => ?_, hinputs, by decide⟩
  obtain ⟨j, -, p, q, -, hq, hkey⟩ := Relation.TransGen.tail'_iff.mp h
  simp [Provider.plainInputs, hinputs q (List.mem_of_getElem? hq)] at hkey

end Shop

end Keelith.Wiring
