import Srp.Mealy

/-!
# Threads

A thread runs a loop. Each turn takes an input, may send messages one after the other, and may raise (`Turn`). What
the loop does with its inputs, if none of its sends fails, is `Thread.sent` and `Thread.after`. What every turn
sends and how it changes the locals carries over to the loop (`Thread.forall_mem_sent`, `Thread.after_related`).
-/

namespace Pipeline

variable {ε σ ι ο : Type*}

/-- How far a thread has got. -/
inductive Status (ε : Type*)
  | running
  | returned
  | raised (e : ε)
  deriving DecidableEq

/-- A thread has raised. -/
def Status.Raises (s : Status ε) : Prop := ∃ e, s = .raised e

instance : DecidablePred (Status.Raises (ε := ε))
  | .running => .isFalse nofun
  | .returned => .isFalse nofun
  | .raised e => .isTrue ⟨e, rfl⟩

/-- A thread that has returned has not raised. -/
theorem Status.not_raises_of_returned {s : Status ε} (h : s = .returned) : ¬s.Raises := by
  subst h
  exact nofun

/-- Nor has one that runs. -/
theorem Status.not_raises_of_running {s : Status ε} (h : s = .running) : ¬s.Raises := by
  subst h
  exact nofun

/-- A thread: the locals of its loop, and how far it has got. -/
structure Thread (ε σ : Type*) where
  state : σ
  status : Status ε := .running

/-- A turn of a loop: what it sends, with the locals while that is sent, and how it ends. -/
inductive Turn (ε ο σ : Type*)
  | done (raised : Option ε) (state : σ)
  | send (state : σ) (m : ο) (rest : Turn ε ο σ)

namespace Turn

/-- What a turn sends. -/
def sent : Turn ε ο σ → List ο
  | done _ _ => []
  | send _ m rest => m :: rest.sent

/-- The thread after a turn none of whose sends fails. -/
def last : Turn ε ο σ → Thread ε σ
  | done none state => ⟨state, .running⟩
  | done (some e) state => ⟨state, .raised e⟩
  | send _ _ rest => rest.last

/-- From some locals on, a turn changes them only as a relation has it. -/
def Steady (R : σ → σ → Prop) : σ → Turn ε ο σ → Prop
  | s, done _ s' => R s s'
  | s, send s' _ rest => R s s' ∧ Steady R s' rest

variable {R : σ → σ → Prop}

/-- Such a relation has the last locals. -/
theorem Steady.last (htrans : ∀ s t u, R s t → R t u → R s u) {s : σ} {k : Turn ε ο σ} (h : k.Steady R s) :
    R s k.last.state := by
  induction k generalizing s with
  | done raised state => cases raised <;> exact h
  | send state m rest ih => exact htrans _ _ _ h.1 (ih h.2)

/-- Any turn changes the locals somehow. -/
theorem steady_true (s : σ) (k : Turn ε ο σ) : k.Steady (fun _ _ => True) s := by
  induction k generalizing s with
  | done raised state => exact trivial
  | send state m rest ih => exact ⟨trivial, ih state⟩

/-- A turn does not end the loop without raising. -/
theorem last_ne_returned (k : Turn ε ο σ) : k.last.status ≠ .returned := by
  induction k with
  | done raised state => cases raised <;> exact nofun
  | send state m rest ih => exact ih

end Turn

namespace Thread

variable (turn : σ → ι → Turn ε ο σ)

/-- A turn of the loop: what it sends, and the thread after it. A thread that has ended takes no turn. -/
def step (t : Thread ε σ) (i : ι) : List ο × Thread ε σ :=
  match t.status with
  | .running => ((turn t.state i).sent, (turn t.state i).last)
  | _ => ([], t)

/-- What the thread sends on some inputs. -/
def sent (t : Thread ε σ) (is : List ι) : List ο := (Mealy.outputs (step turn) t is).flatten

/-- The thread after some inputs. -/
def after (t : Thread ε σ) (is : List ι) : Thread ε σ := Mealy.after (step turn) t is

/-- There is no more input, so the loop returns. -/
def close (t : Thread ε σ) : Thread ε σ :=
  match t.status with
  | .running => { t with status := .returned }
  | _ => t

/-- One for a thread that runs. -/
def alive (t : Thread ε σ) : ℕ :=
  match t.status with
  | .running => 1
  | _ => 0

variable {turn} {t : Thread ε σ} {is js : List ι}

/-- A thread that runs counts one, and any other none. -/
theorem alive_eq_one (h : t.status = .running) : t.alive = 1 := by
  unfold alive
  rw [h]

/-- No thread counts more. -/
theorem alive_le_one (t : Thread ε σ) : t.alive ≤ 1 := by
  unfold alive
  split <;> simp

/-- A thread that has ended counts none. -/
theorem alive_of_ended (h : t.status ≠ .running) : t.alive = 0 := by
  unfold alive
  split
  · exact absurd ‹_› h
  · rfl

@[simp]
theorem sent_nil : t.sent turn [] = ([] : List ο) := rfl

@[simp]
theorem after_nil : t.after turn [] = t := rfl

/-- What is sent on one more input in front. -/
theorem sent_cons (t : Thread ε σ) (i : ι) (is : List ι) :
    t.sent turn (i :: is) = (t.step turn i).1 ++ (t.step turn i).2.sent turn is := rfl

/-- The thread after one more input in front. -/
theorem after_cons (t : Thread ε σ) (i : ι) (is : List ι) :
    t.after turn (i :: is) = (t.step turn i).2.after turn is := rfl

/-- What is sent on two lists of inputs. -/
theorem sent_append (t : Thread ε σ) (is js : List ι) :
    t.sent turn (is ++ js) = t.sent turn is ++ (t.after turn is).sent turn js := by
  unfold sent after
  rw [Mealy.outputs_append, List.flatten_append]

/-- The thread after two lists of inputs. -/
theorem after_append (t : Thread ε σ) (is js : List ι) :
    t.after turn (is ++ js) = (t.after turn is).after turn js :=
  Mealy.after_append t is js

/-- A thread that runs takes its turn. -/
theorem step_of_running (h : t.status = .running) (i : ι) :
    t.step turn i = ((turn t.state i).sent, (turn t.state i).last) := by
  unfold step
  rw [h]

/-- A thread that has ended takes no step. -/
theorem step_of_ended (h : t.status ≠ .running) (i : ι) : t.step turn i = ([], t) := by
  unfold step
  split
  · exact absurd ‹_› h
  · rfl

/-- A thread that has ended sends nothing more, and stays as it is. -/
theorem sent_of_ended (turn : σ → ι → Turn ε ο σ) (h : t.status ≠ .running) (is : List ι) :
    t.sent turn is = [] ∧ t.after turn is = t := by
  induction is with
  | nil => exact ⟨rfl, rfl⟩
  | cons i is ih =>
    rw [sent_cons, after_cons, step_of_ended h]
    exact ih

/-- A thread that has ended is closed. -/
theorem close_of_ended (h : t.status ≠ .running) : t.close = t := by
  unfold close
  split
  · exact absurd ‹_› h
  · rfl

/-- A closed thread has ended. -/
theorem status_close (t : Thread ε σ) : t.close.status ≠ .running := by
  unfold close
  split
  · exact nofun
  · assumption

/-- A thread that runs returns when it is closed. -/
theorem status_close_of_running (h : t.status = .running) : t.close.status = .returned := by
  unfold close
  rw [h]

/-- Closing leaves the locals. -/
@[simp]
theorem state_close (t : Thread ε σ) : t.close.state = t.state := by
  unfold close
  split <;> rfl

/-- A thread that runs does not return in a turn. -/
theorem step_ne_returned (h : t.status = .running) (i : ι) : (t.step turn i).2.status ≠ .returned := by
  rw [step_of_running h]
  exact (turn t.state i).last_ne_returned

/-- What every turn keeps of the locals, every input keeps. -/
theorem after_related {R : σ → σ → Prop} (hrefl : ∀ s, R s s)
    (htrans : ∀ s t u, R s t → R t u → R s u) (hturn : ∀ s i, (turn s i).Steady R s)
    (t : Thread ε σ) (is : List ι) : R t.state (t.after turn is).state := by
  induction is generalizing t with
  | nil => exact hrefl _
  | cons i is ih =>
    have hstep : R t.state (t.step turn i).2.state := by
      unfold step
      split
      · exact (hturn t.state i).last htrans
      · exact hrefl _
    exact htrans _ _ _ hstep (ih _)

/-- What every turn sends has a property, so what a thread sends has. -/
theorem forall_mem_sent {P : ο → Prop} (hturn : ∀ s i, ∀ m ∈ (turn s i).sent, P m) (t : Thread ε σ)
    (is : List ι) : ∀ m ∈ t.sent turn is, P m := by
  induction is generalizing t with
  | nil => exact fun m hm => absurd hm List.not_mem_nil
  | cons i is ih =>
    intro m hm
    rcases List.mem_append.mp hm with hm | hm
    · unfold step at hm
      split at hm
      · exact hturn t.state i m hm
      · exact absurd hm List.not_mem_nil
    · exact ih _ m hm

end Thread

end Pipeline
