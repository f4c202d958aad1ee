import AutoTrader.System.Signal
import AutoTrader.System.Sample

/-!
# What a refusal says

A refused signal leaves nothing behind. But the insert takes every broken constraint for a
repeated signal, and there is one more constraint than the handler knows of: the owner id is
cached for the life of the process, and its `users` row may be gone. Such a signal is
answered with "duplicate" although nobody ever sent it before. The other way round, a
repeated signal with a quantity that overflows its column is an error of the database before
any constraint is looked at.
-/

namespace AutoTrader

open Python Coroutine

/-! ## Histories -/

/-- A removed account takes its trades along (`ON DELETE CASCADE`). -/
def World.removeUser (w : World) (id : UserId) : World :=
  { w with
    users := w.users.filter fun u => u.id ≠ id
    trades := w.trades.filter fun t => t.userId ≠ id }

/-- What may precede a signal. -/
inductive Incident
  | signal (S : Scene) (process : Nat) (payload : TradingViewWebhookPayload)
  | userRemoved (id : UserId)

namespace Incident

def signalId? : Incident → Option String
  | signal _ _ payload => some payload.signalId
  | userRemoved _ => none

def after (env : Deployment) (i : Nat) (w : World) : Incident → Option World
  | signal S p payload =>
    (S.run env i ⟨p, .request payload⟩ (processSignal env payload).run w).map Prod.snd
  | userRemoved id => some (w.removeUser id)

end Incident

/-- One incident after another. -/
def history (env : Deployment) (i : Nat) : List Incident → World → Option World
  | [], w => some w
  | x :: xs, w => (x.after env i w).bind (history env i xs)

/-- New ids are fresh, and a client order id is the one of its signal. -/
structure World.Keyed (env : Deployment) (ids : Set String) (w : World) : Prop where
  fresh : ∀ t ∈ w.trades.rows, t.id < w.nextTradeId
  derived : ∀ t ∈ w.trades.rows, t.clientOrderId = buildClientOrderId env t.signalId
  signals : ∀ t ∈ w.trades.rows, t.signalId ∈ ids

section Runs

variable {S : Scene} {env : Deployment} {i p : Nat} {w u : World} {ids : Set String}
  {payload : TradingViewWebhookPayload} {owner : UserId}

namespace World.Keyed

theorem retains (h : w.Keyed env ids) (hu : w.Retains u) : u.Keyed env ids := by
  have hback : ∀ t ∈ u.trades.rows, ∃ s ∈ w.trades.rows, s.terms = t.terms := by
    intro t ht
    have hterms : t.terms ∈ w.trades.rows.map Trade.terms := by
      rw [← hu.terms]
      exact List.mem_map_of_mem ht
    exact List.mem_map.mp hterms
  refine ⟨?_, ?_, ?_⟩
  · intro t ht
    obtain ⟨s, hs, hst⟩ := hback t ht
    rw [hu.nextTradeId, ← show s.id = t.id from congrArg Trade.Terms.id hst]
    exact h.fresh s hs
  · intro t ht
    obtain ⟨s, hs, hst⟩ := hback t ht
    rw [← show s.clientOrderId = t.clientOrderId from congrArg Trade.Terms.clientOrderId hst,
      ← show s.signalId = t.signalId from congrArg Trade.Terms.signalId hst]
    exact h.derived s hs
  · intro t ht
    obtain ⟨s, hs, hst⟩ := hback t ht
    rw [← show s.signalId = t.signalId from congrArg Trade.Terms.signalId hst]
    exact h.signals s hs

variable (p) in
theorem owning (h : w.Keyed env ids) : (w.owning env p).Keyed env ids := by
  obtain ⟨hledger, -, -, hnext, -⟩ := World.owning_frame w env p
  have htrades : (w.owning env p).trades = w.trades := congrArg Ledger.trades hledger
  refine ⟨?_, ?_, ?_⟩
  · rw [htrades, hnext]
    exact h.fresh
  · rw [htrades]
    exact h.derived
  · rw [htrades]
    exact h.signals

theorem removeUser (h : w.Keyed env ids) (id : UserId) : (w.removeUser id).Keyed env ids := by
  have hmem : ∀ t ∈ (w.removeUser id).trades.rows, t ∈ w.trades.rows :=
    fun t ht => List.mem_of_mem_filter ht
  exact ⟨fun t ht => h.fresh t (hmem t ht), fun t ht => h.derived t (hmem t ht),
    fun t ht => h.signals t (hmem t ht)⟩

theorem insert (h : w.Keyed env ids) (hp : payload.signalId ∈ ids)
    (hfit : w.trades.Fits (w.rowFor env payload owner)) :
    (w.accepting env payload owner hfit).Keyed env ids := by
  have hmem : ∀ t ∈ (w.accepting env payload owner hfit).trades.rows,
      t ∈ w.trades.rows ∨ t = w.rowFor env payload owner :=
    fun t ht => (TradeTable.mem_insert (h := hfit)).mp ht
  refine ⟨?_, ?_, ?_⟩
  · intro t ht
    rcases hmem t ht with ht | rfl
    · exact Nat.lt_succ_of_lt (h.fresh t ht)
    · exact Nat.lt_succ_self _
  · intro t ht
    rcases hmem t ht with ht | rfl
    · exact h.derived t ht
    · rfl
  · intro t ht
    rcases hmem t ht with ht | rfl
    · exact h.signals t ht
    · exact hp

variable (owner) in
/-- The unique indexes stop a row exactly when its signal is there already. -/
theorem fits_iff (h : w.Keyed env ids) (hinj : Set.InjOn (buildClientOrderId env) ids)
    (hp : payload.signalId ∈ ids) :
    w.trades.Fits (w.rowFor env payload owner) ↔
      ∀ t ∈ w.trades.rows, t.signalId ≠ payload.signalId := by
  constructor
  · intro hfit
    exact hfit.2.1
  · intro hnew
    refine ⟨?_, hnew, ?_⟩
    · intro t ht
      exact Nat.ne_of_lt (h.fresh t ht)
    · intro t ht hcid
      apply hnew t ht
      apply hinj (h.signals t ht) hp
      rw [← h.derived t ht]
      exact hcid

end World.Keyed

/-- How a signal ends, in whatever scene. -/
theorem signal_ends (S : Scene) (i p : Nat) (task : Task) (hw : w.Keyed env ids)
    (hinj : Set.InjOn (buildClientOrderId env) ids) (hp : payload.signalId ∈ ids) :
    ∃ r u, S.run env i ⟨p, task⟩ (processSignal env payload).run w = some (r, u) ∧
      ((∃ e, validateSignal env payload = .error e ∧ r = .error e ∧ u = w) ∨
      (validateSignal env payload = .ok () ∧ w.ownerFor env p = none ∧
        r = .error unregistered ∧ u = w.owning env p) ∨
      (∃ owner, validateSignal env payload = .ok () ∧ w.ownerFor env p = some owner ∧
        ((∃ t ∈ w.trades.rows, t.signalId = payload.signalId) ∨ ∀ x ∈ w.users, x.id ≠ owner) ∧
        r = .error (.duplicateSignal ((w.trades.findBySignal? payload.signalId).map Trade.id)) ∧
        u = w.owning env p ∧ payload.quantity.isStorable = true) ∨
      (validateSignal env payload = .ok () ∧ (w.ownerFor env p).isSome ∧
        payload.quantity.isStorable = false ∧ r = .error (.sqlalchemy .other) ∧
        u = w.owning env p) ∨
      ∃ owner hfit, payload.quantity.isStorable = true ∧ validateSignal env payload = .ok () ∧ w.ownerFor env p = some owner ∧
        (∀ t ∈ w.trades.rows, t.signalId ≠ payload.signalId) ∧ (∃ x ∈ w.users, x.id = owner) ∧
        ((w.owning env p).accepting env payload owner hfit).Retains u ∧
        ∀ e, r = .error e → e.isRefusal = false) := by
  rw [Scene.run_processSignal]
  cases hv : validateSignal env payload with
  | error e => exact ⟨_, _, rfl, Or.inl ⟨e, rfl, rfl, rfl⟩⟩
  | ok _ =>
    simp only []
    cases ho : w.ownerFor env p with
    | none => exact ⟨_, _, rfl, Or.inr (Or.inl ⟨trivial, rfl, rfl, rfl⟩)⟩
    | some owner =>
      simp only []
      cases hstore : payload.quantity.isStorable with
      | false =>
        rw [Scene.run_createPendingTrade_overflow hstore]
        exact ⟨_, _, rfl, Or.inr (Or.inr (Or.inr (Or.inl ⟨trivial, rfl, rfl, rfl, rfl⟩)))⟩
      | true =>
      obtain ⟨hledger, husers, -⟩ := World.owning_frame w env p
      have htrades : (w.owning env p).trades = w.trades := congrArg Ledger.trades hledger
      have hfits := (World.Keyed.owning p hw).fits_iff owner hinj hp
      rw [htrades] at hfits
      have hrefused : ((∃ t ∈ w.trades.rows, t.signalId = payload.signalId) ∨
          ∀ x ∈ w.users, x.id ≠ owner) →
          S.run env i ⟨p, task⟩ (createPendingTrade env payload owner).run (w.owning env p) =
            some (.error (.duplicateSignal ((w.trades.findBySignal? payload.signalId).map Trade.id)),
              w.owning env p) := by
        intro h
        rw [Scene.run_createPendingTrade_refused hstore, htrades]
        rw [htrades, husers, hfits]
        rintro ⟨hnew, huser⟩
        rcases h with ⟨t, ht, hid⟩ | hgone
        · exact hnew t ht hid
        · obtain ⟨x, hx, hid⟩ := List.any_eq_true.mp huser
          exact hgone x hx (of_decide_eq_true hid)
      by_cases hnew : ∀ t ∈ w.trades.rows, t.signalId ≠ payload.signalId
      · by_cases huser : ∃ x ∈ w.users, x.id = owner
        · have hfit : (w.owning env p).trades.Fits ((w.owning env p).rowFor env payload owner) := by
            rw [htrades]
            exact hfits.mpr hnew
          have huser' : (w.owning env p).users.any fun x => x.id = owner := by
            obtain ⟨x, hx, hid⟩ := huser
            rw [husers]
            exact List.any_eq_true.mpr ⟨x, hx, decide_eq_true hid⟩
          rw [Scene.run_createPendingTrade hstore hfit huser']
          obtain ⟨r, u, hrun, hu, hr⟩ := Scene.run_handOver S env i p task
            ((w.owning env p).accepting env payload owner hfit)
            ((w.owning env p).rowFor env payload owner)
          refine ⟨r, u, hrun, Or.inr (Or.inr (Or.inr (Or.inr ⟨owner, hfit, ?_⟩)))⟩
          exact ⟨rfl, trivial, rfl, hnew, huser, hu, hr⟩
        · have hgone : ∀ x ∈ w.users, x.id ≠ owner := fun x hx hid => huser ⟨x, hx, hid⟩
          rw [hrefused (Or.inr hgone)]
          exact ⟨_, _, rfl, Or.inr (Or.inr (Or.inl
            ⟨owner, trivial, rfl, Or.inr hgone, rfl, rfl, rfl⟩))⟩
      · have hdup : ∃ t ∈ w.trades.rows, t.signalId = payload.signalId := by
          simpa using hnew
        rw [hrefused (Or.inl hdup)]
        exact ⟨_, _, rfl, Or.inr (Or.inr (Or.inl
          ⟨owner, trivial, rfl, Or.inl hdup, rfl, rfl, rfl⟩))⟩

theorem keyed_after (i : Nat) {x : Incident} (hw : w.Keyed env ids)
    (hinj : Set.InjOn (buildClientOrderId env) ids) (hx : ∀ s ∈ x.signalId?, s ∈ ids) :
    ∃ u, x.after env i w = some u ∧ u.Keyed env ids := by
  cases x with
  | userRemoved id => exact ⟨_, rfl, hw.removeUser id⟩
  | signal S p payload =>
    have hp : payload.signalId ∈ ids := hx _ rfl
    obtain ⟨r, u, hrun, hends⟩ := signal_ends S i p (.request payload) hw hinj hp
    refine ⟨u, congrArg (Option.map Prod.snd) hrun, ?_⟩
    rcases hends with ⟨e, -, -, rfl⟩ | ⟨-, -, -, rfl⟩ | ⟨owner, -, -, -, -, rfl, -⟩ |
      ⟨-, -, -, -, rfl⟩ | ⟨owner, hfit, -, -, -, -, -, hu, -⟩
    · exact hw
    · exact hw.owning p
    · exact hw.owning p
    · exact hw.owning p
    · exact ((hw.owning p).insert hp hfit).retains hu

theorem keyed_history (i : Nat) {xs : List Incident} (hw : w.Keyed env ids)
    (hinj : Set.InjOn (buildClientOrderId env) ids)
    (hxs : ∀ x ∈ xs, ∀ s ∈ x.signalId?, s ∈ ids) :
    ∃ u, history env i xs w = some u ∧ u.Keyed env ids := by
  induction xs generalizing w with
  | nil => exact ⟨w, rfl, hw⟩
  | cons x xs ih =>
    obtain ⟨v, hv, hkeyed⟩ := keyed_after i hw hinj (hxs x (List.mem_cons_self ..))
    obtain ⟨u, hu, hkeyed⟩ := ih hkeyed fun y hy => hxs y (List.mem_cons_of_mem _ hy)
    refine ⟨u, ?_, hkeyed⟩
    rw [history, hv]
    exact hu

end Runs

/-! ## What a refusal promises -/

/-- With a valid payload and an owner id the signal is called a duplicate of a trade exactly
when that trade has its signal id; and a refusal, whichever it is, leaves the rows, the
queues and the exchange alone. -/
def RefusesHonestly (S : Scene) (env : Deployment) (i p : Nat) (w : World)
    (payload : TradingViewWebhookPayload) : Prop :=
  ∃ r u, S.run env i ⟨p, .request payload⟩ (processSignal env payload).run w = some (r, u) ∧
    (validateSignal env payload = .ok () → (w.ownerFor env p).isSome →
      ∀ winner, r = .error (.duplicateSignal winner) ↔
        ∃ t ∈ w.trades.rows, t.signalId = payload.signalId ∧ winner = some t.id) ∧
    ∀ e, r = .error e → e.isRefusal = true →
      u.trades = w.trades ∧ (∀ p', (u.processes p').queue = (w.processes p').queue) ∧
        u.calls = w.calls ∧ u.book = w.book

/-- What tells a repeated signal from every other: a quantity that its column holds, and the
account whose id the process has cached is still there unless the signal is known; or a
quantity that overflows, and a signal that is new, if it comes to an insert at all. -/
def World.Distinguishes (env : Deployment) (p : Nat) (w : World)
    (payload : TradingViewWebhookPayload) : Prop :=
  if payload.quantity.isStorable then
    ∀ owner, (w.processes p).owner = some owner →
      (∃ x ∈ w.users, x.id = owner) ∨ ∃ t ∈ w.trades.rows, t.signalId = payload.signalId
  else
    (w.ownerFor env p).isSome → ∀ t ∈ w.trades.rows, t.signalId ≠ payload.signalId

section Honesty

variable {S : Scene} {env : Deployment} {i p : Nat} {w : World} {ids : Set String}
  {payload : TradingViewWebhookPayload}

/-- Without a cached id the owner is one of the accounts. -/
theorem ownerFor_registered {owner : UserId} (h : w.ownerFor env p = some owner)
    (hcache : (w.processes p).owner = none) : ∃ x ∈ w.users, x.id = owner := by
  unfold World.ownerFor at h
  rw [hcache] at h
  obtain ⟨x, hx, hid⟩ := Option.map_eq_some_iff.mp h
  exact ⟨x, List.mem_of_find?_eq_some hx, hid⟩

/-- The condition in one state. -/
theorem refusesHonestly_iff (hw : w.Keyed env ids)
    (hinj : Set.InjOn (buildClientOrderId env) ids) (hp : payload.signalId ∈ ids) :
    RefusesHonestly S env i p w payload ↔
      (validateSignal env payload = .ok () → w.Distinguishes env p payload) := by
  obtain ⟨hledger, -, -, -, hqueue⟩ := World.owning_frame w env p
  have hsame : (w.owning env p).trades = w.trades ∧
      (∀ p', ((w.owning env p).processes p').queue = (w.processes p').queue) ∧
      (w.owning env p).calls = w.calls ∧ (w.owning env p).book = w.book :=
    ⟨congrArg Ledger.trades hledger, hqueue, congrArg Ledger.calls hledger,
      congrArg Ledger.book hledger⟩
  obtain ⟨r, u, hrun, hends⟩ := signal_ends S i p (.request payload) hw hinj hp
  rcases hends with ⟨e, hv, rfl, rfl⟩ | ⟨hv, ho, rfl, rfl⟩ |
    ⟨owner, hv, ho, hwhy, rfl, rfl, hstore⟩ | ⟨hv, ho, hstore, rfl, rfl⟩ |
    ⟨owner, hfit, hstore, hv, ho, hnew, huser, hu, hr⟩
  · -- the payload is not valid
    apply iff_of_true
    · refine ⟨_, _, hrun, ?_, fun _ _ _ => ⟨rfl, fun _ => rfl, rfl, rfl⟩⟩
      intro hok
      rw [hv] at hok
      cases hok
    · intro hok
      rw [hv] at hok
      cases hok
  · -- there is no owner
    apply iff_of_true
    · refine ⟨_, _, hrun, ?_, fun _ _ _ => hsame⟩
      intro _ hsome
      rw [ho] at hsome
      cases hsome
    · intro _
      unfold World.Distinguishes
      split
      · intro owner hcache
        unfold World.ownerFor at ho
        rw [hcache] at ho
        cases ho
      · intro hsome
        rw [ho] at hsome
        cases hsome
  · -- the insert broke a constraint
    rw [World.Distinguishes, if_pos hstore]
    by_cases hdup : ∃ t ∈ w.trades.rows, t.signalId = payload.signalId
    · obtain ⟨t, ht, hid⟩ := hdup
      have hfind := TradeTable.findBySignal?_eq_some.mpr ⟨ht, hid⟩
      apply iff_of_true
      · refine ⟨_, _, hrun, ?_, fun _ _ _ => hsame⟩
        intro _ _ winner
        rw [hfind]
        constructor
        · intro hwinner
          cases hwinner
          exact ⟨t, ht, hid, rfl⟩
        · rintro ⟨s, hs, hsid, rfl⟩
          rw [TradeTable.eq_of_signalId hs ht (hsid.trans hid.symm)]
          rfl
      · intro _ _ _
        exact Or.inr ⟨t, ht, hid⟩
    · have hgone : ∀ x ∈ w.users, x.id ≠ owner := hwhy.resolve_left hdup
      have hcache : (w.processes p).owner = some owner := by
        cases hcache : (w.processes p).owner with
        | none =>
          obtain ⟨x, hx, hid⟩ := ownerFor_registered ho hcache
          exact absurd hid (hgone x hx)
        | some id =>
          unfold World.ownerFor at ho
          rw [hcache] at ho
          exact ho
      apply iff_of_false
      · rintro ⟨r, u, hrun', hdup', -⟩
        rw [hrun] at hrun'
        cases hrun'
        obtain ⟨t, ht, hid, -⟩ := (hdup' hv (by rw [ho]; rfl) _).mp rfl
        exact hdup ⟨t, ht, hid⟩
      · intro h
        rcases h hv owner hcache with ⟨x, hx, hid⟩ | h
        · exact hgone x hx hid
        · exact hdup h
  · -- the quantity overflows, which is no refusal
    rw [World.Distinguishes, if_neg (by rw [hstore]; exact Bool.false_ne_true)]
    constructor
    · rintro ⟨r, u, hrun', hdup, -⟩ _ _ t ht hid
      rw [hrun] at hrun'
      cases hrun'
      cases (hdup hv ho _).mpr ⟨t, ht, hid, rfl⟩
    · intro hnew
      refine ⟨_, _, hrun, ?_, ?_⟩
      · intro _ _ winner
        constructor
        · intro hwinner
          cases hwinner
        · rintro ⟨t, ht, hid, -⟩
          exact absurd hid (hnew hv ho t ht)
      · intro e he hrefusal
        cases he
        cases hrefusal
  · -- the signal is accepted
    rw [World.Distinguishes, if_pos hstore]
    apply iff_of_true
    · refine ⟨_, _, hrun, ?_, ?_⟩
      · intro _ _ winner
        constructor
        · intro hwinner
          have hrefusal := hr _ hwinner
          cases hrefusal
        · rintro ⟨t, ht, hid, -⟩
          exact absurd hid (hnew t ht)
      · intro e he hrefusal
        rw [hr e he] at hrefusal
        cases hrefusal
    · intro _ owner' hcache
      unfold World.ownerFor at ho
      rw [hcache] at ho
      cases ho
      exact Or.inl huser

/-- **When a refusal is honest.** Whatever signals came before, in whatever scenes and
processes, and whatever accounts were removed in between: the next signal is refused as it
should be if and only if, its payload being valid, a repeated signal can be told from every
other. -/
theorem refuses_honestly_iff {xs : List Incident} {w₀ : World} (hw₀ : w₀.Keyed env ids)
    (hinj : Set.InjOn (buildClientOrderId env) ids)
    (hxs : ∀ x ∈ xs, ∀ s ∈ x.signalId?, s ∈ ids) (hp : payload.signalId ∈ ids) :
    ∃ w, history env i xs w₀ = some w ∧
      (RefusesHonestly S env i p w payload ↔
        (validateSignal env payload = .ok () → w.Distinguishes env p payload)) := by
  obtain ⟨w, hw, hkeyed⟩ := keyed_history i hw₀ hinj hxs
  exact ⟨w, hw, refusesHonestly_iff hkeyed hinj hp⟩

end Honesty

/-- Every order is filled. -/
def Sample.filling : Scene := .storing fun _ => .response Sample.filled.response

theorem Sample.keyed_initial (ids : Set String) :
    (World.initial Sample.users 0).Keyed Sample.inline ids := by
  constructor
  · intro t ht
    cases ht
  · intro t ht
    cases ht
  · intro t ht
    cases ht

theorem refuses_honestly_iff_fresh :
    ∃ w, history Sample.inline 0 [.userRemoved 2] (.initial Sample.users 0) = some w ∧
      RefusesHonestly Sample.filling Sample.inline 0 0 w Sample.signal := by
  have hxs : ∀ x ∈ [Incident.userRemoved 2], ∀ s ∈ x.signalId?, s ∈ ({"sig-1"} : Set String) := by
    simp [Incident.signalId?]
  obtain ⟨w, hw, hiff⟩ := refuses_honestly_iff (S := Sample.filling) (i := 0) (p := 0)
    (Sample.keyed_initial _) (Set.injOn_singleton _ _) hxs (rfl : Sample.signal.signalId = "sig-1")
  refine ⟨w, hw, hiff.mpr ?_⟩
  intro _
  rw [World.Distinguishes, if_pos (by decide +kernel)]
  intro owner howner
  cases hw
  cases howner

/-- The owner of the first signal is removed. Then a signal that nobody sent before is called
a duplicate. -/
theorem duplicate_of_nothing :
    ¬ ∀ (S : Scene) (xs : List Incident) (payload : TradingViewWebhookPayload) (ids : Set String),
      (World.initial Sample.users 0).Keyed Sample.inline ids →
      Set.InjOn (buildClientOrderId Sample.inline) ids →
      (∀ x ∈ xs, ∀ s ∈ x.signalId?, s ∈ ids) → payload.signalId ∈ ids →
      ∃ w, history Sample.inline 0 xs (.initial Sample.users 0) = some w ∧
        RefusesHonestly S Sample.inline 0 0 w payload := by
  intro h
  let xs : List Incident := [.signal Sample.filling 0 Sample.signal, .userRemoved 1]
  have hxs : ∀ x ∈ xs, ∀ s ∈ x.signalId?, s ∈ ({"sig-1", "sig-2"} : Set String) := by
    simp [xs, Incident.signalId?, Sample.signal]
  have hinj : Set.InjOn (buildClientOrderId Sample.inline) {"sig-1", "sig-2"} := by
    have hne : buildClientOrderId Sample.inline "sig-1" ≠
        buildClientOrderId Sample.inline "sig-2" := by decide +kernel
    rintro a (rfl | rfl) b (rfl | rfl) hab
    · rfl
    · exact absurd hab hne
    · exact absurd hab.symm hne
    · rfl
  have hp : Sample.nextSignal.signalId ∈ ({"sig-1", "sig-2"} : Set String) := Or.inr rfl
  obtain ⟨w, hw, hhonest⟩ := h Sample.filling xs Sample.nextSignal _ (Sample.keyed_initial _)
    hinj hxs hp
  have hends : (history Sample.inline 0 xs (.initial Sample.users 0)).map (fun w =>
      ((w.processes 0).owner, w.users.length, w.trades.rows.length)) =
        some (some 1, 0, 0) := by decide +kernel
  obtain ⟨w', hw', hkeyed⟩ := keyed_history 0 (Sample.keyed_initial _) hinj hxs
  rw [hw] at hw' hends
  cases hw'
  simp only [Option.map_some, Option.some.injEq, Prod.mk.injEq, List.length_eq_zero_iff] at hends
  obtain ⟨howner, husers, hrows⟩ := hends
  have hvalid : validateSignal Sample.inline Sample.nextSignal = .ok () := by
    have hok : (validateSignal Sample.inline Sample.nextSignal).isOk = true := by decide +kernel
    cases hv : validateSignal Sample.inline Sample.nextSignal with
    | ok _ => rfl
    | error e =>
      rw [hv] at hok
      cases hok
  have htells := (refusesHonestly_iff hkeyed hinj hp).mp hhonest hvalid
  rw [World.Distinguishes, if_pos (by decide +kernel)] at htells
  rcases htells 1 howner with ⟨x, hx, -⟩ | ⟨t, ht, -⟩
  · rw [husers] at hx
    cases hx
  · rw [hrows] at ht
    cases ht

end AutoTrader
