import AutoTrader.Coroutine.Contract
import AutoTrader.Transition.Run
import Mathlib.Data.List.GetD
import Mathlib.Data.Option.Basic

/-!
# Interleavings of coroutines

A `Host` says what the coroutines share: how an operation issued by a thread acts on
the shared state for each choice of the environment, which program a thread runs, and
how the host reacts to outside events (a thread is started, threads are stopped).
`Host.system` interleaves arbitrarily many threads, one operation at a step.

`ghosts` is the proof rule for such a system. Every thread is given a state of a
contract that its program keeps; an invariant may then relate the shared state to the
contract states of the threads, and the steps to check are those of the contract and
not of the programs.

`drive` runs one thread alone, with the environment's choices given by a function.
-/

namespace Coroutine

open Transition

/-- What a host does on an outside event. -/
structure Reaction (Shared Tag : Type) where
  shared : Shared
  spawn : Option Tag
  kill : Nat → Tag → Bool

/-- The world around the threads of a pool. -/
structure Host (S : Signature) where
  Shared : Type
  /-- What a thread was started for. -/
  Tag : Type
  /-- How the environment resolves one operation. -/
  Choice : Type
  Event : Type
  program : Tag → Free S Unit
  exec : Nat → Tag → Shared → (o : S.Op) → Choice → Option (S.Res o × Shared)
  /-- The threads are seen as their tags, each with a flag: still running. -/
  react : Shared → List (Tag × Bool) → Event → Option (Reaction Shared Tag)

variable {S : Signature} {H : Host S}

/-- A thread; its program is `none` once it was stopped from outside. -/
structure Thread (H : Host S) where
  tag : H.Tag
  program : Option (Free S Unit)

structure Pool (H : Host S) where
  shared : H.Shared
  threads : List (Thread H)

inductive Label (H : Host S)
  /-- Thread `i` performs the operation it waits for. -/
  | act (i : Nat) (choice : H.Choice)
  | event (e : H.Event)

/-- The operation a program waits for. -/
def Free.pending? {α : Type} : Free S α → Option S.Op
  | .pure _ => none
  | .op o _ => some o

namespace Thread

/-- A thread is running while it waits for an operation. -/
def running (t : Thread H) : Bool := (t.program.bind Free.pending?).isSome

/-- The thread after the events of `kill`. -/
def after (kill : Nat → H.Tag → Bool) (i : Nat) (t : Thread H) : Thread H :=
  if kill i t.tag then ⟨t.tag, none⟩ else t

end Thread

namespace Pool

/-- What thread `i` has left to run, if it exists and was not stopped. -/
def program? (P : Pool H) (i : Nat) : Option (Free S Unit) := (P.threads[i]?).bind Thread.program

def tag? (P : Pool H) (i : Nat) : Option H.Tag := (P.threads[i]?).map Thread.tag

/-- The operation thread `i` waits for. -/
def pending? (P : Pool H) (i : Nat) : Option S.Op := (P.program? i).bind Free.pending?

/-- What the host sees of the threads. -/
def seen (P : Pool H) : List (H.Tag × Bool) := P.threads.map fun t => (t.tag, t.running)

/-- Every thread has finished or was stopped. -/
def Quiet (P : Pool H) : Prop := ∀ t ∈ P.threads, t.running = false

def afterEvent (P : Pool H) (x : Reaction H.Shared H.Tag) : Pool H where
  shared := x.shared
  threads := P.threads.mapIdx (Thread.after x.kill) ++
    (x.spawn.map fun tag => ⟨tag, some (H.program tag)⟩).toList

end Pool

namespace Host

/-- One step of the pool. -/
def step (H : Host S) (P : Pool H) : Label H → Option (Pool H)
  | .act i c =>
    match P.threads[i]? with
    | some ⟨tag, some (.op o next)⟩ =>
      (H.exec i tag P.shared o c).map fun x => ⟨x.2, P.threads.set i ⟨tag, some (next x.1)⟩⟩
    | _ => none
  | .event e => (H.react P.shared P.seen e).map P.afterEvent

def system (H : Host S) : System (Pool H) (Label H) := ⟨H.step⟩

/-- Everything a step of a thread can do. -/
theorem step_act {P Q : Pool H} {i : Nat} {c : H.Choice} (h : H.step P (.act i c) = some Q) :
    ∃ tag o next r w, P.threads[i]? = some ⟨tag, some (.op o next)⟩ ∧
      H.exec i tag P.shared o c = some (r, w) ∧
      Q = ⟨w, P.threads.set i ⟨tag, some (next r)⟩⟩ := by
  simp only [step] at h
  split at h
  · rename_i tag o next ht
    obtain ⟨⟨r, w⟩, hx, rfl⟩ := Option.map_eq_some_iff.mp h
    exact ⟨tag, o, next, r, w, ht, hx, rfl⟩
  · cases h

/-- Everything an outside event can do. -/
theorem step_event {P Q : Pool H} {e : H.Event} (h : H.step P (.event e) = some Q) :
    ∃ x, H.react P.shared P.seen e = some x ∧ Q = P.afterEvent x := by
  obtain ⟨x, hx, rfl⟩ := Option.map_eq_some_iff.mp h
  exact ⟨x, hx, rfl⟩

end Host

namespace Pool

theorem program?_of_thread {P : Pool H} {i : Nat} {tag : H.Tag} {x : Free S Unit}
    (h : P.threads[i]? = some ⟨tag, some x⟩) : P.program? i = some x := by
  simp [program?, h]

/-- A thread that waits for an operation. -/
theorem thread_of_pending {P : Pool H} {i : Nat} {o : S.Op} (h : P.pending? i = some o) :
    ∃ tag next, P.threads[i]? = some ⟨tag, some (.op o next)⟩ := by
  rw [pending?, program?] at h
  cases ht : P.threads[i]? with
  | none =>
    rw [ht] at h
    cases h
  | some t =>
    obtain ⟨tag, program⟩ := t
    rw [ht] at h
    cases program with
    | none => cases h
    | some x =>
      cases x with
      | pure _ => cases h
      | op o' next =>
        cases h
        exact ⟨tag, next, rfl⟩

theorem program?_set {P : Pool H} {i : Nat} {t : Thread H} {tag : H.Tag} {x : Free S Unit}
    {w : H.Shared} (h : P.threads[i]? = some t) (j : Nat) :
    (⟨w, P.threads.set i ⟨tag, some x⟩⟩ : Pool H).program? j =
      if j = i then some x else P.program? j := by
  have hi : i < P.threads.length := (List.getElem?_eq_some_iff.mp h).1
  by_cases hj : j = i
  · subst hj
    simp [program?, List.getElem?_set_self hi]
  · simp [program?, List.getElem?_set_ne (Ne.symm hj), hj]

theorem tag?_set {P : Pool H} {i : Nat} {tag : H.Tag} {x y : Option (Free S Unit)}
    {w : H.Shared} (h : P.threads[i]? = some ⟨tag, x⟩) (j : Nat) :
    (⟨w, P.threads.set i ⟨tag, y⟩⟩ : Pool H).tag? j = P.tag? j := by
  have hi : i < P.threads.length := (List.getElem?_eq_some_iff.mp h).1
  by_cases hj : j = i
  · subst hj
    simp [tag?, List.getElem?_set_self hi, h]
  · simp [tag?, List.getElem?_set_ne (Ne.symm hj)]

/-- An event that starts a thread and stops none. -/
theorem tag?_afterSpawn (P : Pool H) (w : H.Shared) (tag : H.Tag) (j : Nat) :
    (P.afterEvent ⟨w, some tag, fun _ _ => false⟩).tag? j =
      if j < P.threads.length then P.tag? j else if j = P.threads.length then some tag else none := by
  simp only [afterEvent, tag?, List.getElem?_append, List.length_mapIdx]
  split
  · rename_i hj
    rw [List.getElem?_mapIdx, List.getElem?_eq_getElem hj]
    rfl
  · rename_i hj
    by_cases he : j = P.threads.length
    · subst he
      simp
    · rw [if_neg he, List.getElem?_eq_none (by simp; omega)]
      rfl

theorem program?_afterEvent (P : Pool H) (x : Reaction H.Shared H.Tag) (j : Nat) :
    (P.afterEvent x).program? j =
      if j < P.threads.length then
        (P.threads[j]?).bind fun t => if x.kill j t.tag then none else t.program
      else if j = P.threads.length then x.spawn.map H.program else none := by
  simp only [afterEvent, program?, List.getElem?_append, List.length_mapIdx]
  split
  · rename_i hj
    rw [List.getElem?_mapIdx, List.getElem?_eq_getElem hj]
    simp only [Option.map_some, Option.bind_some, Thread.after]
    split <;> rfl
  · rename_i hj
    cases hsp : x.spawn with
    | none => simp
    | some tag =>
      by_cases he : j = P.threads.length
      · subst he
        simp
      · rw [if_neg he, List.getElem?_eq_none (by simp; omega)]
        rfl

end Pool

/-! ## The rule of ghosts -/

section Ghosts

variable (K : Contract S)

/-- A contract state after one thread moved: its new one, or an old one of another thread. -/
theorem update_eq_some {σ : Type} {g : Nat → Option σ} {i j : Nat} {p q : σ}
    (h : Function.update g i (some q) j = some p) : (j = i ∧ p = q) ∨ (j ≠ i ∧ g j = some p) := by
  by_cases hji : j = i
  · subst hji
    rw [Function.update_self] at h
    exact Or.inl ⟨rfl, (Option.some.inj h).symm⟩
  · rw [Function.update_of_ne hji] at h
    exact Or.inr ⟨hji, h⟩

/-- Every thread that was not stopped has a contract state, from which its program
keeps the contract. -/
def Ghosted (P : Pool H) (g : Nat → Option K.State) : Prop :=
  ∀ i, Option.Rel (fun x q => x.Keeps K q) (P.program? i) (g i)

/-- The contract states after an outside event. -/
def ghostsAfter (init : H.Tag → K.State) (P : Pool H) (x : Reaction H.Shared H.Tag)
    (g : Nat → Option K.State) (j : Nat) : Option K.State :=
  if j < P.threads.length then
    if (P.tag? j).any (x.kill j) then none else g j
  else if j = P.threads.length then x.spawn.map init else none

variable {K}

/-- A contract state after an outside event was there before, or is that of the new thread. -/
theorem ghostsAfter_some {init : H.Tag → K.State} {P : Pool H} {x : Reaction H.Shared H.Tag}
    {g : Nat → Option K.State} {j : Nat} {q : K.State} (h : ghostsAfter K init P x g j = some q) :
    g j = some q ∨ ∃ tag, x.spawn = some tag ∧ q = init tag := by
  unfold ghostsAfter at h
  split at h
  · split at h
    · cases h
    · exact Or.inl h
  · split at h
    · obtain ⟨tag, htag, rfl⟩ := Option.map_eq_some_iff.mp h
      exact Or.inr ⟨tag, htag, rfl⟩
    · cases h

/-- A thread whose state is not final has not finished. -/
theorem Ghosted.pending {P : Pool H} {g : Nat → Option K.State} (hg : Ghosted K P g) {i : Nat}
    {q : K.State} (hq : g i = some q) (hfinal : ¬ K.final q) : (P.pending? i).isSome := by
  have hrel := hg i
  rw [hq] at hrel
  cases hx : P.program? i with
  | none =>
    rw [hx] at hrel
    cases hrel
  | some x =>
    rw [hx] at hrel
    cases hrel with
    | some hkeeps =>
      cases x with
      | pure a => exact absurd hkeeps hfinal
      | op o next => simp [Pool.pending?, hx, Free.pending?]

theorem Ghosted.act {P : Pool H} {g : Nat → Option K.State} (hg : Ghosted K P g) {i : Nat}
    {tag : H.Tag} {o : S.Op} {next : S.Res o → Free S Unit}
    (hi : P.threads[i]? = some ⟨tag, some (.op o next)⟩) :
    ∃ q m, g i = some q ∧ K.permits q m o ∧ ∀ r w, K.answers q o r →
      Ghosted K ⟨w, P.threads.set i ⟨tag, some (next r)⟩⟩
        (Function.update g i (some (K.next q m o r))) := by
  have hrel := hg i
  rw [Pool.program?_of_thread hi] at hrel
  cases hq : g i with
  | none =>
    rw [hq] at hrel
    cases hrel
  | some q =>
    rw [hq] at hrel
    cases hrel with
    | some hmeets =>
      obtain ⟨m, hp, hnext⟩ := hmeets
      refine ⟨q, m, rfl, hp, fun r w hr j => ?_⟩
      rw [Pool.program?_set hi]
      by_cases hj : j = i
      · subst hj
        rw [if_pos rfl, Function.update_self]
        exact .some (hnext r hr)
      · rw [if_neg hj, Function.update_of_ne hj]
        exact hg j

theorem Ghosted.event {P : Pool H} {g : Nat → Option K.State} (hg : Ghosted K P g)
    {init : H.Tag → K.State} (hstart : ∀ tag, (H.program tag).Keeps K (init tag))
    (x : Reaction H.Shared H.Tag) : Ghosted K (P.afterEvent x) (ghostsAfter K init P x g) := by
  intro j
  rw [Pool.program?_afterEvent]
  unfold ghostsAfter
  by_cases hj : j < P.threads.length
  · rw [if_pos hj, if_pos hj]
    have hrel := hg j
    simp only [Pool.program?, Pool.tag?, List.getElem?_eq_getElem hj, Option.bind_some,
      Option.map_some, Option.any_some] at hrel ⊢
    by_cases hk : x.kill j P.threads[j].tag = true
    · simp [hk]
    · simpa [hk] using hrel
  · rw [if_neg hj, if_neg hj]
    by_cases he : j = P.threads.length
    · rw [if_pos he, if_pos he]
      cases x.spawn with
      | none => exact .none
      | some tag => exact .some (hstart tag)
    · rw [if_neg he, if_neg he]
      exact .none

theorem Ghosted.lt_length {P : Pool H} {g : Nat → Option K.State} (hg : Ghosted K P g) {j : Nat}
    {q : K.State} (hq : g j = some q) : j < P.threads.length := by
  by_contra hj
  have hrel := hg j
  rw [Pool.program?, List.getElem?_eq_none (Nat.le_of_not_lt hj), hq] at hrel
  cases hrel

/-- An event that starts and stops no thread. -/
theorem Ghosted.after_outside {P : Pool H} {g : Nat → Option K.State} (hg : Ghosted K P g)
    (init : H.Tag → K.State) (w : H.Shared) :
    ghostsAfter K init P ⟨w, none, fun _ _ => false⟩ g = g := by
  funext j
  unfold ghostsAfter
  by_cases hj : j < P.threads.length
  · rw [if_pos hj, if_neg (by cases P.tag? j <;> simp)]
  · rw [if_neg hj]
    cases hq : g j with
    | none => exact ite_self none
    | some q => exact absurd (hg.lt_length hq) hj

/-- An event that starts a thread and stops none. -/
theorem Ghosted.after_spawn {P : Pool H} {g : Nat → Option K.State} (hg : Ghosted K P g)
    (init : H.Tag → K.State) (w : H.Shared) (tag : H.Tag) :
    ghostsAfter K init P ⟨w, some tag, fun _ _ => false⟩ g =
      Function.update g P.threads.length (some (init tag)) := by
  funext j
  unfold ghostsAfter
  by_cases hj : j < P.threads.length
  · rw [if_pos hj, if_neg (by cases P.tag? j <;> simp), Function.update_of_ne (Nat.ne_of_lt hj)]
  · rw [if_neg hj]
    by_cases he : j = P.threads.length
    · rw [if_pos he, he, Function.update_self]
      rfl
    · rw [if_neg he, Function.update_of_ne he]
      cases hq : g j with
      | none => rfl
      | some q => exact absurd (hg.lt_length hq) hj

theorem Ghosted.fresh {P : Pool H} {g : Nat → Option K.State} (hg : Ghosted K P g) :
    g P.threads.length = none := by
  cases hq : g P.threads.length with
  | none => rfl
  | some q => exact absurd (hg.lt_length hq) (Nat.lt_irrefl _)

/-- Where every thread has finished, every contract state is final. -/
theorem Ghosted.final_of_quiet {P : Pool H} {g : Nat → Option K.State} (hg : Ghosted K P g)
    (hquiet : P.Quiet) {i : Nat} {q : K.State} (hq : g i = some q) : K.final q := by
  by_contra hfinal
  have hpending := hg.pending hq hfinal
  cases ht : P.threads[i]? with
  | none =>
    rw [Pool.pending?, Pool.program?, ht] at hpending
    cases hpending
  | some t =>
    have hrunning : t.running = true := by
      rw [Pool.pending?, Pool.program?, ht] at hpending
      exact hpending
    rw [hquiet t (List.mem_of_getElem? ht)] at hrunning
    cases hrunning

/-- **The rule of ghosts.** Along a guarded run every thread can be given a contract
state so that the invariant relates these states to the shared state. -/
theorem ghosts {D : Pool H → Label H → Prop} {I : H.Shared → (Nat → Option K.State) → Prop}
    (init : H.Tag → K.State) (hstart : ∀ tag, (H.program tag).Keeps K (init tag))
    (hact : ∀ P g i c tag o r w q m, D P (.act i c) → Ghosted K P g → I P.shared g →
      P.pending? i = some o → P.tag? i = some tag → g i = some q → K.permits q m o →
      H.exec i tag P.shared o c = some (r, w) →
      K.answers q o r ∧ I w (Function.update g i (some (K.next q m o r))))
    (hevent : ∀ P g e x, D P (.event e) → Ghosted K P g → I P.shared g →
      H.react P.shared P.seen e = some x → I x.shared (ghostsAfter K init P x g))
    {P Q : Pool H} {ls : List (Label H)} (h : Run H.system D P ls Q)
    (h0 : ∃ g, Ghosted K P g ∧ I P.shared g) : ∃ g, Ghosted K Q g ∧ I Q.shared g := by
  refine h.invariant (I := fun P => ∃ g, Ghosted K P g ∧ I P.shared g) h0 ?_
  rintro P l Q ⟨g, hg, hI⟩ hD hs
  cases l with
  | act i c =>
    obtain ⟨tag, o, next, r, w, hi, hx, rfl⟩ := Host.step_act hs
    obtain ⟨q, m, hq, hp, hnext⟩ := hg.act hi
    have hpend : P.pending? i = some o := by
      simp [Pool.pending?, Pool.program?_of_thread hi, Free.pending?]
    obtain ⟨hr, hI'⟩ := hact P g i c tag o r w q m hD hg hI hpend
      (by simp [Pool.tag?, hi]) hq hp hx
    exact ⟨_, hnext r w hr, hI'⟩
  | event e =>
    obtain ⟨x, hx, rfl⟩ := Host.step_event hs
    exact ⟨_, hg.event hstart x, hevent P g e x hD hg hI hx⟩

/-- The contract state of a thread agrees with what the thread was started for. -/
def Agrees (T : H.Tag → K.State → Prop) (P : Pool H) (g : Nat → Option K.State) : Prop :=
  ∀ i q tag, g i = some q → P.tag? i = some tag → T tag q

theorem Pool.tag?_afterEvent (P : Pool H) (x : Reaction H.Shared H.Tag) (j : Nat) :
    (P.afterEvent x).tag? j =
      if j < P.threads.length then P.tag? j
      else if j = P.threads.length then x.spawn else none := by
  simp only [afterEvent, tag?, List.getElem?_append, List.length_mapIdx]
  split
  · rename_i hj
    rw [List.getElem?_mapIdx, List.getElem?_eq_getElem hj]
    simp only [Option.map_some, Thread.after]
    split <;> rfl
  · rename_i hj
    cases hsp : x.spawn with
    | none => simp
    | some tag =>
      by_cases he : j = P.threads.length
      · subst he
        simp
      · rw [if_neg he, List.getElem?_eq_none (by simp; omega)]
        rfl

theorem Agrees.event {T : H.Tag → K.State → Prop} {P : Pool H} {g : Nat → Option K.State}
    (h : Agrees T P g) {init : H.Tag → K.State} (hinit : ∀ tag, T tag (init tag))
    (x : Reaction H.Shared H.Tag) : Agrees T (P.afterEvent x) (ghostsAfter K init P x g) := by
  intro j q tag hq htag
  rw [Pool.tag?_afterEvent] at htag
  unfold ghostsAfter at hq
  by_cases hj : j < P.threads.length
  · rw [if_pos hj] at htag hq
    split at hq
    · cases hq
    · exact h j q tag hq htag
  · rw [if_neg hj] at htag hq
    split at htag
    · rename_i he
      rw [if_pos he, htag] at hq
      cases hq
      exact hinit tag
    · cases htag

/-- **The rule of ghosts, with tags.** What the contract keeps of the tag a thread was started
for may be used in every step. -/
theorem ghosts_tagged {D : Pool H → Label H → Prop} {I : H.Shared → (Nat → Option K.State) → Prop}
    {T : H.Tag → K.State → Prop} (init : H.Tag → K.State)
    (hstart : ∀ tag, (H.program tag).Keeps K (init tag)) (hinit : ∀ tag, T tag (init tag))
    (hnext : ∀ tag q m o r, T tag q → T tag (K.next q m o r))
    (hact : ∀ P g i c tag o r w q m, D P (.act i c) → Ghosted K P g → I P.shared g → T tag q →
      P.pending? i = some o → P.tag? i = some tag → g i = some q → K.permits q m o →
      H.exec i tag P.shared o c = some (r, w) →
      K.answers q o r ∧ I w (Function.update g i (some (K.next q m o r))))
    (hevent : ∀ P g e x, D P (.event e) → Ghosted K P g → I P.shared g →
      H.react P.shared P.seen e = some x → I x.shared (ghostsAfter K init P x g))
    {P Q : Pool H} {ls : List (Label H)} (h : Run H.system D P ls Q)
    (h0 : ∃ g, Ghosted K P g ∧ I P.shared g ∧ Agrees T P g) :
    ∃ g, Ghosted K Q g ∧ I Q.shared g ∧ Agrees T Q g := by
  refine h.invariant (I := fun P => ∃ g, Ghosted K P g ∧ I P.shared g ∧ Agrees T P g) h0 ?_
  rintro P l Q ⟨g, hg, hI, hT⟩ hD hs
  cases l with
  | act i c =>
    obtain ⟨tag, o, next, r, w, hi, hx, rfl⟩ := Host.step_act hs
    obtain ⟨q, m, hq, hp, hnextK⟩ := hg.act hi
    have hpend : P.pending? i = some o := by
      simp [Pool.pending?, Pool.program?_of_thread hi, Free.pending?]
    have htag : P.tag? i = some tag := by simp [Pool.tag?, hi]
    have hTq : T tag q := hT i q tag hq htag
    obtain ⟨hr, hI'⟩ := hact P g i c tag o r w q m hD hg hI hTq hpend htag hq hp hx
    refine ⟨_, hnextK r w hr, hI', ?_⟩
    intro j p tag' hj htag'
    rw [Pool.tag?_set hi] at htag'
    rcases update_eq_some hj with ⟨rfl, rfl⟩ | ⟨-, hj⟩
    · rw [htag] at htag'
      cases htag'
      exact hnext tag q m o r hTq
    · exact hT j p tag' hj htag'
  | event e =>
    obtain ⟨x, hx, rfl⟩ := Host.step_event hs
    exact ⟨_, hg.event hstart x, hevent P g e x hD hg hI hx, hT.event hinit x⟩

end Ghosts

/-! ## One thread alone -/

/-- Run a program alone as thread `i`, with the environment's choices given by `π`. -/
def Host.drive {α : Type} (H : Host S) (π : H.Shared → S.Op → H.Choice) (i : Nat) (tag : H.Tag) :
    Free S α → H.Shared → Option (α × H.Shared)
  | .pure a, w => some (a, w)
  | .op o next, w => (H.exec i tag w o (π w o)).bind fun x => H.drive π i tag (next x.1) x.2

section Drive

variable {α : Type} {π : H.Shared → S.Op → H.Choice} {i : Nat} {tag : H.Tag} {w : H.Shared}

@[simp] theorem Host.drive_pure (a : α) : H.drive π i tag (.pure a) w = some (a, w) := rfl

theorem Host.drive_op (o : S.Op) (next : S.Res o → Free S α) :
    H.drive π i tag (.op o next) w =
      (H.exec i tag w o (π w o)).bind fun x => H.drive π i tag (next x.1) x.2 := rfl

theorem Host.drive_bind {β : Type} (x : Free S α) (f : α → Free S β) :
    H.drive π i tag (x.bind f) w =
      (H.drive π i tag x w).bind fun p => H.drive π i tag (f p.1) p.2 := by
  induction x generalizing w with
  | pure a => rfl
  | op o next ih =>
    rw [Free.bind_op, drive_op, drive_op, Option.bind_assoc]
    congr 1
    funext p
    exact ih p.1

/-- A program that runs alone ends as its contract says, if the state keeps up with it. -/
theorem Host.drive_meets {K : Contract S} {R : K.State → H.Shared → Prop}
    (hstep : ∀ q m o w r w', K.permits q m o → R q w →
      H.exec i tag w o (π w o) = some (r, w') → K.answers q o r ∧ R (K.next q m o r) w')
    {x : Free S α} {q : K.State} {Q : α → K.State → Prop} (hx : x.Meets K q Q) (hw : R q w)
    {a : α} {w' : H.Shared} (h : H.drive π i tag x w = some (a, w')) :
    ∃ q', Q a q' ∧ R q' w' := by
  induction x generalizing q w with
  | pure b =>
    cases h
    exact ⟨q, hx, hw⟩
  | op o next ih =>
    obtain ⟨m, hpermits, hnext⟩ := hx
    obtain ⟨⟨r, u⟩, hexec, hrest⟩ := Option.bind_eq_some_iff.mp h
    obtain ⟨hanswers, hu⟩ := hstep q m o w r u hpermits hw hexec
    exact ih r (hnext r hanswers) hu hrest

/-- Run a program alone up to the first operation that `stop` names: what is left to run,
and the state there. -/
def Host.driveTo (H : Host S) (π : H.Shared → S.Op → H.Choice) (stop : S.Op → Bool) (i : Nat)
    (tag : H.Tag) : Free S α → H.Shared → Option (Free S α × H.Shared)
  | .pure a, w => some (.pure a, w)
  | .op o next, w =>
    if stop o then some (.op o next, w)
    else (H.exec i tag w o (π w o)).bind fun x => H.driveTo π stop i tag (next x.1) x.2

/-- A program that was run up to an operation is resumed there. -/
theorem Host.drive_of_driveTo {stop : S.Op → Bool} {x y : Free S α} {w' : H.Shared}
    (h : H.driveTo π stop i tag x w = some (y, w')) :
    H.drive π i tag x w = H.drive π i tag y w' := by
  induction x generalizing w with
  | pure a =>
    cases h
    rfl
  | op o next ih =>
    simp only [driveTo] at h
    split at h
    · cases h
      rfl
    · obtain ⟨⟨r, u⟩, hx, hrest⟩ := Option.bind_eq_some_iff.mp h
      rw [drive_op, hx]
      exact ih r hrest

end Drive

/-- What `drive` computes is a run of the pool in which only thread `i` acts. -/
theorem Host.run_of_drive {π : H.Shared → S.Op → H.Choice} {i : Nat} {tag : H.Tag}
    {x : Free S Unit} {P : Pool H} {w : H.Shared} (hi : P.threads[i]? = some ⟨tag, some x⟩)
    (h : H.drive π i tag x P.shared = some ((), w)) :
    ∃ cs : List H.Choice, Run H.system unguarded P (cs.map (.act i))
      ⟨w, P.threads.set i ⟨tag, some (.pure ())⟩⟩ := by
  induction x generalizing P with
  | pure a =>
    simp only [drive, Option.some.injEq, Prod.mk.injEq, true_and] at h
    subst h
    refine ⟨[], ?_⟩
    obtain ⟨hlen, hget⟩ := List.getElem?_eq_some_iff.mp hi
    have hset : P.threads.set i ⟨tag, some (.pure ())⟩ = P.threads := by
      rw [← hget, List.set_getElem_self]
    rw [hset]
    exact .nil
  | op o next ih =>
    obtain ⟨⟨r, w'⟩, hx, hrest⟩ := Option.bind_eq_some_iff.mp h
    have hlen : i < P.threads.length := (List.getElem?_eq_some_iff.mp hi).1
    have hstep : H.system.step P (.act i (π P.shared o)) =
        some ⟨w', P.threads.set i ⟨tag, some (next r)⟩⟩ := by
      simp [system, step, hi, hx]
    obtain ⟨cs, hrun⟩ := ih r (P := ⟨w', P.threads.set i ⟨tag, some (next r)⟩⟩)
      (by simp [List.getElem?_set_self hlen]) hrest
    refine ⟨π P.shared o :: cs, ?_⟩
    have := (Run.single (C := unguarded) trivial hstep).trans hrun
    simpa [List.set_set] using this

end Coroutine
