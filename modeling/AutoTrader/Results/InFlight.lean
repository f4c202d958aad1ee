import AutoTrader.System.Sample

/-!
# What the age filter protects

A batch leaves young trades alone, so that it does not race a request that is waiting for
the exchange. Young is what was *created* a short while ago. A trade that waits in the queue
is old by the time its order is sent, and so is one that was resumed after a restart: the
filter does not see that its request is on the way.

`protects_iff` says which rows the filter protects: those that were claimed no later than
they were created. In a run in which orders are sent for such rows only, it protects all of
them at any time.
-/

namespace AutoTrader

open Python Coroutine Transition

variable {env : Deployment}

/-- Of whatever a batch selects, at whatever time: what was handed to the exchange was
claimed longer ago than the age it asks for. -/
def Protects (w : World) : Prop :=
  ∀ (now : DateTime) (olderThanSeconds : Int) (limit : Nat),
    ∀ t ∈ w.selectReconcilable (now - olderThanSeconds * 1000000) limit,
      w.toLedger.posted t.clientOrderId ≠ 0 →
        ∃ s, t.submittedAt = some s ∧ s < now - olderThanSeconds * 1000000

/-- The row was claimed no later than it was created. -/
def claimedAtOnce (r : Trade) : Bool := r.submittedAt.any fun s => s ≤ r.createdAt

theorem claimedAtOnce_iff {r : Trade} :
    claimedAtOnce r = true ↔ ∃ s, r.submittedAt = some s ∧ s ≤ r.createdAt := by
  unfold claimedAtOnce
  cases r.submittedAt with
  | none => simp
  | some s => simp

theorem mem_selectReconcilable_all {w : World} {r : Trade} {cutoff : DateTime}
    (hr : r ∈ w.trades.rows) (hopen : r.status.isReconcilable = true)
    (hold : r.createdAt < cutoff) :
    r ∈ w.selectReconcilable cutoff w.trades.rows.length := by
  unfold World.selectReconcilable
  rw [List.take_of_length_le]
  · apply (List.mem_insertionSort _).mpr
    apply List.mem_filter.mpr
    refine ⟨hr, ?_⟩
    rw [hopen]
    exact decide_eq_true hold
  · rw [List.length_insertionSort]
    exact List.length_filter_le _ _

/-- The rows that the filter protects in one state. -/
theorem protects_iff {w : World} :
    Protects w ↔ ∀ r ∈ w.trades.rows, r.status.isReconcilable = true →
      w.toLedger.posted r.clientOrderId ≠ 0 → claimedAtOnce r = true := by
  constructor
  · intro h r hr hopen hposted
    -- a batch that asks for all that is older than an instant after the creation
    have hcutoff : r.createdAt + 1 - 0 * 1000000 = r.createdAt + 1 := Int.sub_zero _
    have hmem := mem_selectReconcilable_all hr hopen (Int.lt_succ r.createdAt)
    rw [← hcutoff] at hmem
    obtain ⟨s, hs, hlt⟩ := h (r.createdAt + 1) 0 _ r hmem hposted
    rw [hcutoff] at hlt
    exact claimedAtOnce_iff.mpr ⟨s, hs, Int.le_of_lt_add_one hlt⟩
  · intro h now olderThanSeconds limit t ht hposted
    have ht := (List.mem_insertionSort _).mp (List.mem_of_mem_take ht)
    obtain ⟨hrow, hfilter⟩ := List.mem_filter.mp ht
    obtain ⟨hopen, hold⟩ := Bool.and_eq_true_iff.mp hfilter
    obtain ⟨s, hs, hle⟩ := claimedAtOnce_iff.mp (h t hrow hopen hposted)
    exact ⟨s, hs, Int.lt_of_le_of_lt hle (of_decide_eq_true hold)⟩

/-! ## Runs -/

/-- The client order id of the order that a step sends. -/
def sending? (P : Pool (service env)) : Label (service env) → Option String
  | .act i _ =>
    match P.pending? i with
    | some (.send x) => x.placed?
    | _ => none
  | .event _ => none

/-- The condition: an order is sent only for a trade that was claimed no later than it was
created. -/
def SendsAtOnce (P : Pool (service env)) (l : Label (service env)) : Prop :=
  ∀ c ∈ sending? P l, ∀ r ∈ P.shared.trades.rows, r.clientOrderId = c → claimedAtOnce r = true

instance (P : Pool (service env)) (l : Label (service env)) : Decidable (SendsAtOnce P l) :=
  inferInstanceAs (Decidable (∀ c ∈ sending? P l, ∀ r ∈ P.shared.trades.rows,
    r.clientOrderId = c → claimedAtOnce r = true))

/-- Whatever was handed to the exchange was claimed at once. -/
def SentAtOnce (l : Ledger) : Prop :=
  ∀ r ∈ l.trades.rows, l.posted r.clientOrderId ≠ 0 → claimedAtOnce r = true

theorem SentAtOnce.update {l : Ledger} (h : SentAtOnce l) {id : TradeId}
    {u : TradeTable.Update} {e : Entry}
    (hu : ∀ r ∈ l.trades.rows, r.id = id → l.posted r.clientOrderId ≠ 0 →
      claimedAtOnce (u.write r) = true) :
    SentAtOnce { l with trades := l.trades.update id u, history := l.history ++ [e] } := by
  intro r hr hposted
  obtain ⟨s, hs, rfl⟩ := TradeTable.mem_update.mp hr
  by_cases hid : s.id = id
  · rw [if_pos hid] at hposted ⊢
    rw [u.clientOrderId] at hposted
    exact hu s hs hid hposted
  · rw [if_neg hid] at hposted ⊢
    exact h s hs hposted

theorem sentAtOnce_act {P : Pool (service env)} {g : Stances} {i : Nat} {c : Choice}
    {tag : Tag} {q : Stance} {m : Move} {o : Op} {x : o.Res} {w' : World}
    (hs : Sound env P.shared.toLedger g) (hJ : SentAtOnce P.shared.toLedger)
    (hD : SendsAtOnce P (.act i c)) (ha : Acts env P g i c tag q m o x w') :
    SentAtOnce w'.toLedger := by
  have hx := ha.exec
  cases o with
  | insert n =>
    rcases exec_insert hx with rfl | ⟨hfit, rfl⟩
    · exact hJ
    · intro r hr hposted
      rcases (TradeTable.mem_insert (h := hfit)).mp hr with hr | rfl
      · exact hJ r hr hposted
      · -- nothing was posted for a row that was not there
        obtain ⟨s, hs', hcid, -⟩ := hs.postedClaimed hposted
        exact absurd hcid (hfit.2.2 s hs')
  | claim id now =>
    rcases exec_claim hx with ⟨rfl, -⟩ | ⟨row, hrow, rfl, hunsent, -, rfl⟩
    · exact hJ
    · apply hJ.update
      intro r hr hid hposted
      -- what was posted is claimed, and a claim hits no claimed row
      obtain ⟨s, hsub, -⟩ := claimedAtOnce_iff.mp (hJ r hr hposted)
      rw [TradeTable.eq_of_id hr hrow hid] at hsub
      unfold Trade.unsent at hunsent
      rw [hsub, Option.isNone_some, Bool.and_false] at hunsent
      cases hunsent
  | commit t e =>
    rcases exec_commit hx with ⟨rfl, -⟩ | ⟨rfl, -⟩
    · apply hJ.update
      intro r hr _ hposted
      exact hJ r hr hposted
    · exact hJ
  | send request =>
    obtain ⟨-, rfl⟩ := exec_send hx
    intro r hr hposted
    rw [Ledger.posted_send] at hposted
    by_cases hplaced : request.placed? = some r.clientOrderId
    · apply hD r.clientOrderId _ r hr rfl
      simp only [sending?, ha.pending]
      exact hplaced
    · rw [if_neg hplaced, Nat.add_zero] at hposted
      exact hJ r hr hposted
  | log record =>
    obtain rfl := exec_log hx
    exact hJ
  | _ =>
    rw [exec_of_not_writes rfl hx]
    exact hJ

/-- **The age filter protects orders that are sent at once.** In every run, with any delay in
the queue, crash and resumption, in which each order is sent for a trade that was claimed no
later than it was created: whatever a batch would select at whatever time, what was handed
to the exchange was claimed longer ago than the age that the batch asks for. -/
theorem protects_in_flight {users : List User} {clock : DateTime}
    {ls : List (Label (service env))} {P : Pool (service env)}
    (h : Run (service env).system SendsAtOnce (Pool.idle (.initial users clock)) ls P) :
    Protects P.shared := by
  obtain ⟨-, -, -, hJ⟩ := invariant_of_run (J := fun w _ => SentAtOnce w.toLedger) h
    (Sound.found _) (fun _ hr => by cases hr)
    (fun P g i c tag q m o x w' hD _ hs hJ ha => sentAtOnce_act hs hJ hD ha)
    (fun P g e x _ _ _ hJ hx => by
      obtain ⟨ht, hr, -⟩ := react_ledger hx
      unfold SentAtOnce Ledger.posted at hJ ⊢
      rw [ht, hr]
      exact hJ)
  exact protects_iff.mpr fun r hr _ hposted => hJ r hr hposted

theorem placedAtOnce_follows : ((service Sample.inline).system.follow SendsAtOnce
    (Sample.start _) Sample.placed).isSome := by decide +kernel

theorem protects_in_flight_placed :
    ∃ P, Run (service Sample.inline).system SendsAtOnce (Sample.start _) Sample.placed P ∧
      P.shared.toLedger.posted Sample.clientOrderId = 1 ∧ Protects P.shared := by
  have h := System.run_get placedAtOnce_follows
  refine ⟨_, h, ?_, protects_in_flight h⟩
  decide +kernel

/-- A queued signal whose order is sent an hour later. -/
def sentLate : List (Label (service Sample.queued)) :=
  [Sample.occurs _ (.webhook 0 Sample.signal)] ++ Sample.steps _ 0 5 ++
    [Sample.occurs _ (.tick 3600000000), Sample.occurs _ (.take 0)] ++ Sample.steps _ 1 5

theorem sentLate_follows : ((service Sample.queued).system.follow unguarded
    (Sample.start _) sentLate).isSome := by decide +kernel

/-- Without the condition the filter does not protect a request that was sent this instant. -/
theorem late_order_raced :
    ¬ ∀ (users : List User) (clock : DateTime) (ls : List (Label (service Sample.queued)))
        (P : Pool (service Sample.queued)),
      Run (service Sample.queued).system unguarded (Pool.idle (.initial users clock)) ls P →
      Protects P.shared := by
  intro h
  have hprotects := protects_iff.mp (h Sample.users 0 _ _ (System.run_get sentLate_follows))
  revert hprotects
  decide +kernel

end AutoTrader
