import Mathlib.Data.List.Forall2
import Mathlib.Data.List.Induction
import Mathlib.Tactic.Common

/-!
# Deterministic machines with outputs

A step function `σ → ι → ο × σ` read as a machine: `after` is the state that a list of inputs leads
to and `outputs` the list of what it gives out on the way. The rules below carry what one step
preserves to whole runs: an invariant of the inputs, outputs, and state so far (`run_invariant`), a
relation between two machines on the same inputs (`simulation`), and a relation between a machine
and one that is handed only some of its inputs (`projection`).
-/

namespace Mealy

variable {σ τ ι ο ο' : Type*}

/-- The state that a list of inputs leads to. -/
def after (step : σ → ι → ο × σ) : σ → List ι → σ
  | s, [] => s
  | s, i :: is => after step (step s i).2 is

/-- The outputs along a list of inputs, one for each input. -/
def outputs (step : σ → ι → ο × σ) : σ → List ι → List ο
  | _, [] => []
  | s, i :: is => (step s i).1 :: outputs step (step s i).2 is

/-- `P` holds of every state and input that a run meets. -/
def Along (step : σ → ι → ο × σ) (P : σ → ι → Prop) : σ → List ι → Prop
  | _, [] => True
  | s, i :: is => P s i ∧ Along step P (step s i).2 is

variable {step : σ → ι → ο × σ} {step' : τ → ι → ο' × τ}

@[simp]
theorem after_nil (s : σ) : after step s [] = s := rfl

@[simp]
theorem after_cons (s : σ) (i : ι) (is : List ι) :
    after step s (i :: is) = after step (step s i).2 is := rfl

@[simp]
theorem outputs_nil (s : σ) : outputs step s [] = [] := rfl

@[simp]
theorem outputs_cons (s : σ) (i : ι) (is : List ι) :
    outputs step s (i :: is) = (step s i).1 :: outputs step (step s i).2 is := rfl

/-- The run on two lists of inputs is the run on the second from where the first ends. -/
theorem after_append (s : σ) (is js : List ι) :
    after step s (is ++ js) = after step (after step s is) js := by
  induction is generalizing s with
  | nil => rfl
  | cons i is ih => exact ih _

/-- The outputs on two lists of inputs are those on the first, then those on the second. -/
theorem outputs_append (s : σ) (is js : List ι) :
    outputs step s (is ++ js) = outputs step s is ++ outputs step (after step s is) js := by
  induction is generalizing s with
  | nil => rfl
  | cons i is ih => simp [ih]

/-- A run gives one output for each input. -/
@[simp]
theorem length_outputs (s : σ) (is : List ι) : (outputs step s is).length = is.length := by
  induction is generalizing s with
  | nil => rfl
  | cons i is ih => simp [ih]

/-- The outputs on a prefix of the inputs are a prefix of the outputs. -/
theorem take_outputs (s : σ) (is : List ι) (k : ℕ) :
    (outputs step s is).take k = outputs step s (is.take k) := by
  induction is generalizing s k with
  | nil => simp
  | cons i is ih =>
    cases k with
    | zero => rfl
    | succ k => simp [ih]

/-- The output at a position is that of one step, from the state that the inputs before it lead
to. -/
theorem getElem?_outputs (s : σ) (is : List ι) (k : ℕ) :
    (outputs step s is)[k]? = is[k]?.map fun i => (step (after step s (is.take k)) i).1 := by
  induction is generalizing s k with
  | nil => simp
  | cons i is ih =>
    cases k with
    | zero => simp
    | succ k => simpa using ih _ k

/-- The output at a position is that of the step on the input at that position. -/
theorem exists_of_getElem?_outputs {s : σ} {is : List ι} {k : ℕ} {o : ο}
    (h : (outputs step s is)[k]? = some o) :
    ∃ i, is[k]? = some i ∧ (step (after step s (is.take k)) i).1 = o := by
  rw [getElem?_outputs] at h
  exact Option.map_eq_some_iff.mp h

/-- The state after one more input is that of the step on it. -/
theorem after_take_succ {s : σ} {is : List ι} {k : ℕ} {i : ι} (h : is[k]? = some i) :
    after step s (is.take (k + 1)) = (step (after step s (is.take k)) i).2 := by
  rw [List.take_add_one, h, after_append]
  rfl

/-- An output of a run is that of one step, on one of the inputs. -/
theorem exists_of_mem_outputs {s : σ} {is : List ι} {o : ο} (h : o ∈ outputs step s is) :
    ∃ js i, i ∈ is ∧ o = (step (after step s js) i).1 := by
  obtain ⟨k, hk⟩ := List.getElem?_of_mem h
  rw [getElem?_outputs] at hk
  obtain ⟨i, hi, rfl⟩ := Option.map_eq_some_iff.mp hk
  exact ⟨is.take k, i, List.mem_of_getElem? hi, rfl⟩

/-- An invariant of the inputs, outputs, and state so far that one more step preserves holds of
every run. -/
theorem run_invariant {I : List ι → List ο → σ → Prop} {s : σ} (h0 : I [] [] s)
    (hstep : ∀ is os t i, I is os t → I (is ++ [i]) (os ++ [(step t i).1]) (step t i).2)
    (is : List ι) : I is (outputs step s is) (after step s is) := by
  induction is using List.reverseRecOn with
  | nil => exact h0
  | append_singleton is i ih =>
    rw [outputs_append, after_append]
    exact hstep is _ _ i ih

/-- A property of states that every step preserves holds after every run. -/
theorem after_invariant {P : σ → Prop} (hstep : ∀ s i, P s → P (step s i).2) {s : σ} (hs : P s)
    (is : List ι) : P (after step s is) :=
  run_invariant (I := fun _ _ t => P t) hs (fun _ _ t i ht => hstep t i ht) is

/-- A property of states that every step preserves holds at every later position of a run. -/
theorem after_take_mono {P : σ → Prop} (hstep : ∀ s i, P s → P (step s i).2) {s : σ} {is : List ι}
    {k k' : ℕ} (hk : k ≤ k') (h : P (after step s (is.take k))) :
    P (after step s (is.take k')) := by
  obtain ⟨n, rfl⟩ := Nat.exists_eq_add_of_le hk
  -- The run up to the later position goes on from the earlier one.
  rw [List.take_add, after_append]
  exact after_invariant hstep h _

/-- What holds of every state and input holds along every run. -/
theorem along_of_forall {P : σ → ι → Prop} {s : σ} {is : List ι} (h : ∀ t, ∀ i ∈ is, P t i) :
    Along step P s is := by
  induction is generalizing s with
  | nil => trivial
  | cons i is ih => exact ⟨h s i (by simp), ih fun t j hj => h t j (by simp [hj])⟩

/-- What holds of the states that the prefixes of the inputs lead to holds along the run. -/
theorem along_of_prefixes {P : σ → ι → Prop} {s : σ} {is : List ι}
    (h : ∀ js i ks, is = js ++ i :: ks → P (after step s js) i) : Along step P s is := by
  induction is generalizing s with
  | nil => trivial
  | cons i is ih =>
    refine ⟨h [] i is rfl, ih fun js j ks hjs => ?_⟩
    exact h (i :: js) j ks (by rw [hjs]; rfl)

/-- What holds along a run holds along its beginning. -/
theorem Along.take {P : σ → ι → Prop} {s : σ} {is : List ι} (h : Along step P s is) (k : ℕ) :
    Along step P s (is.take k) := by
  induction is generalizing s k with
  | nil => simpa using h
  | cons i is ih =>
    cases k with
    | zero => trivial
    | succ k => exact ⟨h.1, ih h.2 k⟩

/-- Two properties that hold along a run hold along it together. -/
theorem Along.and {P Q : σ → ι → Prop} {s : σ} {is : List ι} (h : Along step P s is)
    (h' : Along step Q s is) : Along step (fun s i => P s i ∧ Q s i) s is := by
  induction is generalizing s with
  | nil => trivial
  | cons i is ih => exact ⟨⟨h.1, h'.1⟩, ih h.2 h'.2⟩

/-- Two machines whose states stay related on the same inputs give related outputs. The step need
only be checked where `P` and `Q` hold, if they do so along the two runs. -/
theorem simulation {R : σ → τ → Prop} {S : ο → ο' → Prop} {P : σ → ι → Prop} {Q : τ → ι → Prop}
    (hstep : ∀ s t i, R s t → P s i → Q t i →
      S (step s i).1 (step' t i).1 ∧ R (step s i).2 (step' t i).2)
    {s : σ} {t : τ} (hR : R s t) {is : List ι} (hP : Along step P s is)
    (hQ : Along step' Q t is) :
    List.Forall₂ S (outputs step s is) (outputs step' t is) ∧
      R (after step s is) (after step' t is) := by
  induction is generalizing s t with
  | nil => exact ⟨.nil, hR⟩
  | cons i is ih =>
    obtain ⟨hS, hR'⟩ := hstep s t i hR hP.1 hQ.1
    obtain ⟨hSs, hRs⟩ := ih hR' hP.2 hQ.2
    exact ⟨.cons hS hSs, hRs⟩

/-! ## Handing on only some of the inputs

`keep i o` says whether an input `i` that was answered by `o` is one of those that a second machine is
handed too. -/

section Projection

variable {κ : Type*} (keep : ι → ο → Bool)

/-- The inputs of a run that are kept. -/
def keptInputs (step : σ → ι → ο × σ) (s : σ) (is : List ι) : List ι :=
  ((is.zip (outputs step s is)).filter fun p => keep p.1 p.2).map Prod.fst

/-- The outputs of a run at the inputs that are kept. -/
def keptOutputs (step : σ → ι → ο × σ) (s : σ) (is : List ι) : List ο :=
  ((is.zip (outputs step s is)).filter fun p => keep p.1 p.2).map Prod.snd

/-- What is kept by the input alone is what a filter of the inputs keeps. -/
theorem keptInputs_of_input (keep : ι → Bool) (s : σ) (is : List ι) :
    keptInputs (fun i _ => keep i) step s is = is.filter keep := by
  have hlen : is.length ≤ (outputs step s is).length := Nat.le_of_eq (length_outputs s is).symm
  have hfst : (is.zip (outputs step s is)).map Prod.fst = is := List.map_fst_zip hlen
  conv_rhs => rw [← hfst, List.filter_map]
  rfl

/-- One more input is kept or dropped by its own answer. -/
theorem keptInputs_append_singleton (s : σ) (is : List ι) (i : ι) :
    keptInputs keep step s (is ++ [i]) =
      keptInputs keep step s is ++ if keep i (step (after step s is) i).1 then [i] else [] := by
  have hzip : (is ++ [i]).zip (outputs step s (is ++ [i])) =
      is.zip (outputs step s is) ++ [(i, (step (after step s is) i).1)] := by
    rw [outputs_append, List.zip_append (length_outputs s is).symm]
    rfl
  unfold keptInputs
  rw [hzip, List.filter_append, List.map_append]
  cases hk : keep i (step (after step s is) i).1 <;> simp [hk]

variable (step step') in
/-- When dropping an input keeps the states related, and handing it on keeps them related with the
same observations, the machine that is handed only the kept inputs answers them as the first does, and
the two end in related states. -/
theorem projection (f : ο → κ) (f' : ο' → κ) {R : σ → τ → Prop} {P : σ → ι → Prop}
    (hdrop : ∀ s t i, R s t → P s i → keep i (step s i).1 = false → R (step s i).2 t)
    (hkeep : ∀ s t i, R s t → P s i → keep i (step s i).1 = true →
      f (step s i).1 = f' (step' t i).1 ∧ R (step s i).2 (step' t i).2)
    {s : σ} {t : τ} (hR : R s t) {is : List ι} (hP : Along step P s is) :
    (keptOutputs keep step s is).map f = (outputs step' t (keptInputs keep step s is)).map f' ∧
      R (after step s is) (after step' t (keptInputs keep step s is)) := by
  induction is generalizing s t with
  | nil => exact ⟨rfl, hR⟩
  | cons i is ih =>
    cases hk : keep i (step s i).1 with
    -- The first machine steps alone.
    | false =>
      have hrest := ih (hdrop s t i hR hP.1 hk) hP.2
      simpa [keptOutputs, keptInputs, hk] using hrest
    -- Both step, on the same input.
    | true =>
      obtain ⟨hf, hR'⟩ := hkeep s t i hR hP.1 hk
      obtain ⟨hfs, hRs⟩ := ih hR' hP.2
      simp only [keptOutputs, keptInputs, outputs_cons, List.zip_cons_cons, List.filter_cons, hk,
        if_true, List.map_cons] at hfs hRs ⊢
      exact ⟨by rw [hf, hfs], hRs⟩

end Projection

/-! ## Inputs under another name -/

/-- Handing on the image of each input is the run on the images. -/
theorem outputs_map {ι' : Type*} (g : ι' → ι) (s : σ) (is : List ι') :
    outputs (fun s i => step s (g i)) s is = outputs step s (is.map g) := by
  induction is generalizing s with
  | nil => rfl
  | cons i is ih => simp [ih]

/-- Handing on the image of each input leads where the run on the images does. -/
theorem after_map {ι' : Type*} (g : ι' → ι) (s : σ) (is : List ι') :
    after (fun s i => step s (g i)) s is = after step s (is.map g) := by
  induction is generalizing s with
  | nil => rfl
  | cons i is ih => simp [ih]

/-! ## Comprehensions

A call that may raise, for each of a list of inputs in order. What a call raises ends it, and the results before
it are lost. -/

section Collect

variable {ε : Type*} {call : σ → ι → Except ε ο × σ}

/-- The results of a call for each of a list of inputs. -/
def collect (call : σ → ι → Except ε ο × σ) : σ → List ι → Except ε (List ο) × σ
  | s, [] => (.ok [], s)
  | s, i :: is =>
    match call s i with
    | (.error e, t) => (.error e, t)
    | (.ok o, t) =>
      match collect call t is with
      | (.error e, u) => (.error e, u)
      | (.ok os, u) => (.ok (o :: os), u)

/-- What the first call raises. -/
theorem collect_cons_error {s t : σ} {i : ι} {e : ε} (h : call s i = (.error e, t)) (is : List ι) :
    collect call s (i :: is) = (.error e, t) := by
  simp only [collect, h]

/-- What the first call returns, in front of what the others do. -/
theorem collect_cons_ok {s t : σ} {i : ι} {o : ο} (h : call s i = (.ok o, t)) (is : List ι) :
    collect call s (i :: is) = ((collect call t is).1.map (o :: ·), (collect call t is).2) := by
  simp only [collect, h]
  rcases collect call t is with ⟨- | -, u⟩
  · rfl
  · rfl

/-- A comprehension returns one result for each input. -/
theorem length_of_collect {s : σ} {is : List ι} {os : List ο} (h : (collect call s is).1 = .ok os) :
    os.length = is.length := by
  induction is generalizing s os with
  | nil =>
    cases h
    rfl
  | cons i is ih =>
    rcases hcall : call s i with ⟨e | o, t⟩
    · rw [collect_cons_error hcall] at h
      cases h
    · rw [collect_cons_ok hcall] at h
      dsimp only at h
      rcases hrest : (collect call t is).1 with e | os'
      · rw [hrest] at h
        cases h
      · rw [hrest] at h
        cases h
        rw [List.length_cons, List.length_cons, ih hrest]

end Collect

/-! ## Families

A family of machines, each of them fed by its own inputs in any interleaving. -/

section Family

variable {α : Type*} [DecidableEq α]

/-- A step of one member, by its input. -/
def family (step : σ → ι → ο × σ) (s : α → σ) (e : α × ι) : (α × ο) × (α → σ) :=
  ((e.1, (step (s e.1) e.2).1), Function.update s e.1 (step (s e.1) e.2).2)

/-- What belongs to one member. -/
def own {β : Type*} (a : α) (l : List (α × β)) : List β :=
  l.filterMap fun e => if e.1 = a then some e.2 else none

section Own

variable {β : Type*} (a b : α) (x : β) (l : List (α × β))

@[simp]
theorem own_cons_self : own a ((a, x) :: l) = x :: own a l := by
  simp [own]

@[simp]
theorem own_cons_of_ne {a b : α} (h : b ≠ a) : own a ((b, x) :: l) = own a l := by
  simp [own, h]

end Own

/-- A projection of a list has no duplicates, if no member's share of it has any and no two members
share an element. -/
theorem nodup_filterMap_of_own {β γ : Type*} {g : β → Option γ} {l : List (α × β)}
    (hown : ∀ a, ((own a l).filterMap g).Nodup)
    (hdisj : ∀ a b x, a ≠ b → x ∈ (own a l).filterMap g → x ∉ (own b l).filterMap g) :
    (l.filterMap fun e => g e.2).Nodup := by
  induction l with
  | nil => exact List.nodup_nil
  | cons e l ih =>
    obtain ⟨a, x⟩ := e
    have hsub (b : α) : ((own b l).filterMap g).Sublist ((own b ((a, x) :: l)).filterMap g) := by
      rcases eq_or_ne a b with rfl | hne
      · rw [own_cons_self]
        exact (List.sublist_cons_self _ _).filterMap g
      · rw [own_cons_of_ne _ _ hne]
    have hrest := ih (fun b => (hown b).sublist (hsub b))
      fun b c y hne hb hc => hdisj b c y hne ((hsub b).subset hb) ((hsub c).subset hc)
    cases hx : g x with
    | none => simpa [hx] using hrest
    | some y =>
      have hcons : ((a, x) :: l).filterMap (fun e => g e.2) = y :: l.filterMap fun e => g e.2 :=
        List.filterMap_cons_some hx
      rw [hcons, List.nodup_cons]
      refine ⟨fun hmem => ?_, hrest⟩
      -- Another occurrence of `y` belongs to some member `b`.
      obtain ⟨⟨b, x'⟩, hin, hy⟩ := List.mem_filterMap.mp hmem
      have hb : y ∈ (own b l).filterMap g :=
        List.mem_filterMap.mpr ⟨x', List.mem_filterMap.mpr ⟨_, hin, by simp⟩, hy⟩
      rcases eq_or_ne a b with rfl | hne
      · have hnodup := hown a
        rw [own_cons_self, List.filterMap_cons_some hx, List.nodup_cons] at hnodup
        exact hnodup.1 hb
      · refine hdisj a b y hne ?_ ((hsub b).subset hb)
        rw [own_cons_self, List.filterMap_cons_some hx]
        exact List.mem_cons_self

/-- In every interleaving, a member gives out what it gives out when it is fed alone. -/
theorem own_outputs_family (s : α → σ) (es : List (α × ι)) (a : α) :
    own a (outputs (family step) s es) = outputs step (s a) (own a es) := by
  induction es generalizing s with
  | nil => rfl
  | cons e es ih =>
    obtain ⟨b, i⟩ := e
    rcases eq_or_ne b a with rfl | hb
    · simp [family, ih]
    · simp [family, ih, hb, Function.update_of_ne hb.symm]

/-- In every interleaving, a member ends where it ends when it is fed alone. -/
theorem after_family (s : α → σ) (es : List (α × ι)) (a : α) :
    after (family step) s es a = after step (s a) (own a es) := by
  induction es generalizing s with
  | nil => rfl
  | cons e es ih =>
    obtain ⟨b, i⟩ := e
    rcases eq_or_ne b a with rfl | hb
    · simp [family, ih]
    · simp [family, ih, hb, Function.update_of_ne hb.symm]

end Family

end Mealy
