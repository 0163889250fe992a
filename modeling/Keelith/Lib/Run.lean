import Mathlib.Data.List.Basic

/-!
# Runs of a machine

A `Machine` executes one input at a time from a state. A `Run` is a serial execution with its
history: the list of its events, oldest first. Concurrent callers of an object that locks itself
for a whole call are exactly the runs of the object's machine.

* `Machine.may`: what the environment guarantees about the next input, given the history (a clock
  that does not go back, a caller that keeps a protocol).
* `Machine.Run.invariant`: a property of history and state that holds initially and that every
  event keeps holds of every run.
* `Machine.Run.split`: an event of a run was executed in a state that the run before it reaches;
  `Machine.Run.events`: so what holds of an input in all such states holds of the events.
* `Machine.initialState`: where a run with this history started.
* `Machine.restrict`, `Machine.assuming`: the machine under callers that keep a protocol.
* `Machine.trace`: the events of a list of inputs; `Machine.Run.extend`: they continue a run.
* `Since start bad history`: some event satisfies `start`, and no later one satisfies `bad`.
-/

namespace Keelith

theorem forall_mem_snoc {α : Type} {l : List α} {a : α} {p : α → Prop} :
    (∀ x ∈ l ++ [a], p x) ↔ (∀ x ∈ l, p x) ∧ p a := by
  rw [List.forall_mem_append, List.forall_mem_singleton]

theorem getElem?_snoc {α : Type} {l : List α} {a b : α} {i : Nat} :
    (l ++ [a])[i]? = some b ↔ l[i]? = some b ∨ i = l.length ∧ b = a := by
  grind

/-- One executed input: the state before, the input, its output and the state after. -/
structure Event (σ ι ρ : Type) where
  pre : σ
  input : ι
  output : ρ
  post : σ

/-- A state machine with outputs. -/
structure Machine (σ ι ρ : Type) where
  init : σ → Prop
  exec : σ → ι → ρ × σ
  may : List (Event σ ι ρ) → σ → ι → Prop

namespace Machine

variable {σ ι ρ : Type} (M : Machine σ ι ρ)

/-- The event of the input `i` in the state `s`. -/
def event (s : σ) (i : ι) : Event σ ι ρ := ⟨s, i, (M.exec s i).1, (M.exec s i).2⟩

@[simp] theorem event_pre (s : σ) (i : ι) : (M.event s i).pre = s := rfl
@[simp] theorem event_input (s : σ) (i : ι) : (M.event s i).input = i := rfl
@[simp] theorem event_output (s : σ) (i : ι) : (M.event s i).output = (M.exec s i).1 := rfl
@[simp] theorem event_post (s : σ) (i : ι) : (M.event s i).post = (M.exec s i).2 := rfl

/-- The runs: their history and the state they reach. -/
inductive Run : List (Event σ ι ρ) → σ → Prop
  | init {s : σ} : M.init s → Run [] s
  | step {history : List (Event σ ι ρ)} {s : σ} (i : ι) : Run history s → M.may history s i →
      Run (history ++ [M.event s i]) (M.exec s i).2

variable {M}

variable {history : List (Event σ ι ρ)}

/-- A run goes on with the event of an input whose execution is known. -/
theorem Run.snoc {s s' : σ} {o : ρ} (h : M.Run history s) (i : ι)
    (hmay : M.may history s i) (hexec : M.exec s i = (o, s')) :
    M.Run (history ++ [⟨s, i, o, s'⟩]) s' := by
  have hstep := h.step i hmay
  rwa [event, hexec] at hstep

/-- A run goes on with an input that is allowed. -/
theorem Run.next {s s' : σ} (h : M.Run history s) (i : ι)
    (hmay : M.may history s i) (hexec : (M.exec s i).2 = s') : ∃ history, M.Run history s' := by
  rw [← hexec]
  exact ⟨_, h.step i hmay⟩

variable {s : σ}

/-- **The invariant rule.** -/
theorem Run.invariant {I : List (Event σ ι ρ) → σ → Prop} (h0 : ∀ s, M.init s → I [] s)
    (hstep : ∀ history s i, I history s → M.may history s i →
      I (history ++ [M.event s i]) (M.exec s i).2) (h : M.Run history s) : I history s := by
  induction h with
  | init hs => exact h0 _ hs
  | step i _ hm ih => exact hstep _ _ i ih hm

/-- An event of a run was allowed and executed where the run before it ends. -/
theorem Run.split {history before after : List (Event σ ι ρ)} {e : Event σ ι ρ}
    (h : M.Run history s) (he : history = before ++ e :: after) :
    M.Run before e.pre ∧ M.may before e.pre e.input ∧ e = M.event e.pre e.input := by
  induction h generalizing after with
  | init => simp at he
  | @step history s i hr hm ih =>
    rcases List.eq_nil_or_concat after with rfl | ⟨rest, last, rfl⟩
    · obtain ⟨rfl, hl⟩ := List.append_inj' he rfl
      obtain rfl : M.event s i = e := by simpa using hl
      exact ⟨hr, hm, rfl⟩
    · rw [List.concat_eq_append, ← List.cons_append, ← List.append_assoc] at he
      exact ih (List.append_inj' he rfl).1

/-- **The rule for events**: what holds of an input wherever a run allows it holds of every
event. -/
theorem Run.events {P : Event σ ι ρ → Prop} (h : M.Run history s)
    (hevent : ∀ history s i, M.Run history s → M.may history s i → P (M.event s i)) :
    ∀ e ∈ history, P e := by
  intro e he
  obtain ⟨before, after, hsplit⟩ := List.append_of_mem he
  obtain ⟨hrun, hmay, heq⟩ := h.split hsplit
  rw [heq]
  exact hevent before e.pre e.input hrun hmay

/-- The state in which a run with this history, now in `s`, started. -/
def initialState (history : List (Event σ ι ρ)) (s : σ) : σ := (history.head?.map Event.pre).getD s

@[simp] theorem initialState_nil (s : σ) :
    initialState ([] : List (Event σ ι ρ)) s = s := rfl

@[simp] theorem initialState_snoc (history : List (Event σ ι ρ)) (s : σ) (e : Event σ ι ρ) :
    initialState (history ++ [e]) s = initialState history e.pre := by
  cases history <;> rfl

variable (M)

/-- The machine under callers whose inputs satisfy `p` in the state that they meet. -/
def restrict (p : σ → ι → Prop) : Machine σ ι ρ :=
  { M with may := fun history s i => M.may history s i ∧ p s i }

variable {M}

theorem Run.of_restrict {p : σ → ι → Prop}
    (h : (M.restrict p).Run history s) : M.Run history s := by
  induction h with
  | init hs => exact .init hs
  | step i _ hm ih => exact ih.step i hm.1

variable (M)

/-- The machine in an environment that guarantees `p` too, given the history. -/
def assuming (p : List (Event σ ι ρ) → σ → ι → Prop) : Machine σ ι ρ :=
  { M with may := fun history s i => M.may history s i ∧ p history s i }

variable {M}

theorem Run.of_assuming {p : List (Event σ ι ρ) → σ → ι → Prop}
    (h : (M.assuming p).Run history s) : M.Run history s := by
  induction h with
  | init hs => exact .init hs
  | step i _ hm ih => exact ih.step i hm.1

variable (M)

/-- The events of the inputs, executed one after another. -/
def trace (s : σ) : List ι → List (Event σ ι ρ)
  | [] => []
  | i :: inputs => M.event s i :: trace (M.exec s i).2 inputs

/-- The state after the inputs. -/
def final (s : σ) : List ι → σ
  | [] => s
  | i :: inputs => final (M.exec s i).2 inputs

/-- The environment may give the inputs one after another. -/
def Allows (history : List (Event σ ι ρ)) (s : σ) : List ι → Prop
  | [] => True
  | i :: inputs => M.may history s i ∧ Allows (history ++ [M.event s i]) (M.exec s i).2 inputs

/-- Whether it may, for an environment that can be asked. -/
instance decidableAllows [∀ history s i, Decidable (M.may history s i)] :
    ∀ (history : List (Event σ ι ρ)) (s : σ) (inputs : List ι),
      Decidable (M.Allows history s inputs)
  | _, _, [] => inferInstanceAs (Decidable True)
  | history, s, i :: inputs =>
    have := decidableAllows (history ++ [M.event s i]) (M.exec s i).2 inputs
    inferInstanceAs (Decidable (_ ∧ _))

variable {M}

@[simp] theorem map_input_trace (s : σ) (inputs : List ι) :
    (M.trace s inputs).map Event.input = inputs := by
  induction inputs generalizing s with
  | nil => rfl
  | cons i inputs ih => rw [trace, List.map_cons, ih, event_input]

theorem Allows.of_forall (h : ∀ history s i, M.may history s i)
    (history : List (Event σ ι ρ)) (s : σ) (inputs : List ι) : M.Allows history s inputs := by
  induction inputs generalizing history s with
  | nil => trivial
  | cons i inputs ih => exact ⟨h history s i, ih _ _⟩

theorem Run.extend {inputs : List ι} (h : M.Run history s)
    (ha : M.Allows history s inputs) : M.Run (history ++ M.trace s inputs) (M.final s inputs) := by
  induction inputs generalizing history s with
  | nil => simpa [trace, final] using h
  | cons i inputs ih =>
    have := ih (h.step i ha.1) ha.2
    rwa [List.append_assoc] at this

end Machine

/-- Some event of the history satisfies `start`, and no later one satisfies `bad`. -/
def Since {ε : Type} (start bad : ε → Prop) (history : List ε) : Prop :=
  ∃ before e after, history = before ++ e :: after ∧ start e ∧ ∀ d ∈ after, ¬ bad d

namespace Since

variable {ε : Type} {start bad : ε → Prop} {history : List ε}

@[simp] theorem not_nil : ¬ Since start bad [] := by
  rintro ⟨before, e, after, h, -⟩
  simp at h

/-- `Since` after one more event. -/
theorem snoc_iff {e : ε} :
    Since start bad (history ++ [e]) ↔ start e ∨ (Since start bad history ∧ ¬ bad e) := by
  constructor
  · rintro ⟨before, d, after, h, hd, hafter⟩
    rcases List.eq_nil_or_concat after with rfl | ⟨rest, last, rfl⟩
    · obtain rfl : e = d := by simpa using (List.append_inj' h rfl).2
      exact .inl hd
    · rw [List.concat_eq_append] at h hafter
      rw [← List.cons_append, ← List.append_assoc] at h
      obtain ⟨hh, hl⟩ := List.append_inj' h rfl
      obtain rfl : e = last := by simpa using hl
      exact .inr ⟨⟨before, d, rest, hh, hd, fun x hx => hafter x (by simp [hx])⟩,
        hafter e (by simp)⟩
  · rintro (hs | ⟨⟨before, d, after, rfl, hd, hafter⟩, hb⟩)
    · exact ⟨history, e, [], rfl, hs, by simp⟩
    · exact ⟨before, d, after ++ [e], by simp, hd, forall_mem_snoc.mpr ⟨hafter, hb⟩⟩

end Since

end Keelith
