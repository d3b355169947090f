import Taunicorn.Transport.Server

/-!
# Every client is accounted for

The branch of the listener takes a client off the backlog in the step in which it returns it. So an
accept that is dropped, times out or loses against a stop takes none, and there is no state between
the backlog and the call. Whatever the calls do, the clients that have arrived are those that have
been handed out, each by one call and in the order of their arrival, and then those that wait.

An accept is the only call that waits, and only where there is no client and no stop.

## Main results

* `Server.Accounts.step` — the books, and what a step adds to them
* `ServerPolled.rank` — a call gets nearer to its return
* `clients_accounted` — nobody is lost, nobody is handed out twice, and nobody waits in vain
-/

namespace Taunicorn

namespace Transport

variable {α ι : Type} {sh sh' : ServerShared α} {choice : ServerChoice} {op : ServerOp}
  {pc pc' : ServerPC α} {call : ServerCall α} {server server' : Server α ι}
  {label : ServerLabel α ι} {id : ι} {client : α}

/-! ### The books -/

/-- The client that a step brings to the listener. -/
def arrival : ServerLabel α ι → Option α
  | .env client => some client
  | _ => none

/-- The clients that have arrived, and the calls that have handed some of them out. -/
structure Server.Accounts (server : Server α ι) (arrived : List α) (handed : List (ι × α)) :
    Prop where
  /-- In the order of their arrival. -/
  clients : arrived = handed.map Prod.snd ++ server.shared.backlog
  /-- No call hands out two. -/
  nodup : (handed.map Prod.fst).Nodup
  handsOut : ∀ id client, server.HandsOut id client ↔ (id, client) ∈ handed

theorem accounts_bound : (Server.bound : Server α ι).Accounts [] [] where
  clients := rfl
  nodup := List.nodup_nil
  handsOut id client := by
    constructor
    · rintro ⟨call, hcall, -⟩
      exact absurd hcall.symm (Option.some_ne_none _)
    · exact fun hmem => absurd hmem List.not_mem_nil

/-- A step that returns a client takes it off the backlog, and no other touches the backlog. -/
theorem ServerPolled.backlog (h : ServerPolled sh choice op pc pc' sh') :
    (∃ client, pc' = .done (.ok (.connection client)) ∧ sh.backlog = client :: sh'.backlog) ∨
      ((∀ client, pc' ≠ .done (.ok (.connection client))) ∧ sh'.backlog = sh.backlog) := by
  cases h with
  | accepted client backlog _ hbacklog => exact Or.inl ⟨client, rfl, hbacklog⟩
  | clearedFirst => exact Or.inr ⟨by simp, rfl⟩
  | _ => exact Or.inr ⟨by simp, rfl⟩

variable [DecidableEq ι]

/-- Who hands out behind a step of a call. -/
theorem handsOut_update {i : ι} {shared : ServerShared α} :
    Server.HandsOut ⟨shared, Function.update server.calls id (some call)⟩ i client ↔
      if i = id then call.pc = .done (.ok (.connection client)) else server.HandsOut i client := by
  unfold Server.HandsOut
  by_cases hi : i = id
  · subst hi
    simp
  · simp [hi]

/-- **The step.** -/
theorem Server.Accounts.step {arrived : List α} {handed : List (ι × α)}
    (h : server.Accounts arrived handed) (hstep : server.step label = some server') :
    ∃ more, server'.Accounts (arrived ++ (arrival label).toList) (handed ++ more) := by
  have hquiet : ∀ {id call shared}, (∀ client, ¬server.HandsOut id client) →
      (∀ client, call.pc ≠ .done (.ok (.connection client))) →
      shared.backlog = server.shared.backlog →
      Server.Accounts ⟨shared, Function.update server.calls id (some call)⟩ arrived handed := by
    intro id call shared hnone hpc hbacklog
    refine ⟨hbacklog ▸ h.clients, h.nodup, fun i client => ?_⟩
    rw [handsOut_update, ← h.handsOut]
    by_cases hi : i = id
    · subst hi
      simp [hpc client, hnone client]
    · simp [hi]
  cases Pool.stepped hstep with
  | called id op hnone =>
    refine ⟨[], ?_⟩
    simp only [arrival, Option.toList_none, List.append_nil]
    refine hquiet (fun client => ?_) (fun client => ?_) rfl
    · rintro ⟨call, hcall, -⟩
      exact absurd (hcall.symm.trans hnone) (Option.some_ne_none _)
    · cases op <;> simp [serverSpec, ServerOp.enter]
  | polled id choice call call' shared hcall hpoll =>
    obtain ⟨-, hpolled⟩ := ServerPolled.of_poll hpoll
    have hnone : ∀ client, ¬server.HandsOut id client := by
      rintro client ⟨c, hc, hpc⟩
      obtain rfl := Option.some.inj (hcall.symm.trans hc)
      exact hpolled.not_returned (hpc ▸ trivial)
    simp only [arrival, Option.toList_none, List.append_nil]
    rcases hpolled.backlog with ⟨client, hpc, hbacklog⟩ | ⟨hpc, hbacklog⟩
    · -- the call returns the first client of the backlog
      refine ⟨[(id, client)], ?_, ?_, fun i client' => ?_⟩
      · rw [h.clients, hbacklog]
        simp
      · rw [List.map_append, List.nodup_append]
        refine ⟨h.nodup, List.nodup_singleton _, ?_⟩
        rintro i hi j hj rfl
        obtain rfl : i = id := List.mem_singleton.mp hj
        obtain ⟨⟨k, client'⟩, hmem, rfl⟩ := List.mem_map.mp hi
        exact hnone client' ((h.handsOut k client').mpr hmem)
      · rw [handsOut_update, List.mem_append, ← h.handsOut, List.mem_singleton, Prod.mk.injEq]
        by_cases hi : i = id
        · subst hi
          simp [hpc, hnone client', eq_comm]
        · simp [hi]
    · exact ⟨[], by simpa using hquiet hnone hpc hbacklog⟩
  | moved client shared henv =>
    obtain rfl := Option.some.inj henv
    refine ⟨[], ?_, by simpa using h.nodup, fun id client' => ?_⟩
    · rw [h.clients]
      simp [arrival]
    · rw [List.append_nil]
      exact h.handsOut id client'

/-- **The books of a run.** -/
theorem Server.Accounts.of_run {ls : List (ServerLabel α ι)} {arrived : List α}
    {handed : List (ι × α)} (h : server.Accounts arrived handed)
    (hrun : runLabels Server.step (fun _ _ => true) server ls = some server') :
    ∃ more, server'.Accounts (arrived ++ ls.filterMap arrival) (handed ++ more) := by
  induction ls generalizing server arrived handed with
  | nil =>
    obtain rfl := Option.some.inj hrun
    exact ⟨[], by simpa using h⟩
  | cons label ls ih =>
    rw [runLabels, if_pos rfl] at hrun
    obtain ⟨server₁, hstep, hrest⟩ := Option.bind_eq_some_iff.mp hrun
    obtain ⟨first, h₁⟩ := h.step hstep
    obtain ⟨rest, h'⟩ := ih h₁ hrest
    refine ⟨first ++ rest, ?_⟩
    have hlabels : (label :: ls).filterMap arrival
        = (arrival label).toList ++ ls.filterMap arrival := by
      cases harrival : arrival label <;> simp [harrival]
    rwa [hlabels, ← List.append_assoc, ← List.append_assoc]

/-! ### Who waits -/

/-- How far a call is from its return. -/
def ServerPC.rank : ServerPC α → ℕ
  | .paused => 4
  | .stopped => 3
  | .slot => 2
  | .select => 1
  | .swap => 4
  | .clear _ => 3
  | .cancel => 2
  | .take => 1
  | .check _ => 2
  | .store _ => 1
  | .done _ => 0
  | .dropped => 0

omit [DecidableEq ι] in
/-- **A call gets nearer to its return.** -/
theorem ServerPolled.rank (h : ServerPolled sh choice op pc pc' sh') : pc'.rank < pc.rank := by
  cases h <;> simp [ServerPC.rank]

/-- Every step of a call lowers its rank, and makes no other call. -/
theorem Server.measure (h : ∃ id choice, server.step (.poll id choice) = some server') :
    ∃ id call call', server.calls id = some call ∧
      server'.calls = Function.update server.calls id (some call') ∧
      call'.pc.rank < call.pc.rank := by
  obtain ⟨id, choice, hstep⟩ := h
  cases Pool.stepped hstep with
  | polled _ _ call call' shared hcall hpoll =>
    exact ⟨id, call, call', hcall, rfl, (ServerPolled.of_poll hpoll).2.rank⟩

/-- The answers that need no failure, no deadline and no drop. -/
def ServerChoice.Given : ServerChoice → Prop
  | .go => True
  | .client => True
  | .stopToken => True
  | _ => False

omit [DecidableEq ι] in
/-- **Only an accept waits**, for a client or for a stop. -/
theorem ServerCall.exists_poll (call : ServerCall α) (sh : ServerShared α)
    (hlive : ¬call.pc.Returned) :
    (∃ choice : ServerChoice, choice.Given ∧ (call.poll sh choice).isSome) ∨
      (call.pc = .select ∧ sh.backlog = [] ∧ sh.stopToken = false) := by
  obtain ⟨op, pc⟩ := call
  dsimp only at hlive
  cases pc with
  | select =>
    cases hbacklog : sh.backlog with
    | cons client backlog =>
      exact Or.inl ⟨.client, trivial, by simp [ServerCall.poll, hbacklog]⟩
    | nil =>
      cases htoken : sh.stopToken with
      | true => exact Or.inl ⟨.stopToken, trivial, by simp [ServerCall.poll, htoken]⟩
      | false => exact Or.inr ⟨rfl, rfl, rfl⟩
  | done outcome => exact absurd trivial hlive
  | dropped => exact absurd trivial hlive
  | _ => exact Or.inl ⟨.go, trivial, rfl⟩

/-- **Every client is accounted for**, in every run of any calls and any arrivals:

* those that have arrived are those that have been handed out, each by one call and in the order of
  their arrival, followed by those that wait;
* unless more calls are made or more clients arrive, the run ends;
* it does not end before every call has returned, but for an accept that finds no client and no
  stop. -/
theorem clients_accounted {ls : List (ServerLabel α ι)}
    (h : runLabels Server.step (fun _ _ => true) Server.bound ls = some server) :
    (∃ handed, server.Accounts (ls.filterMap arrival) handed) ∧
      Acc (fun s' s => ∃ id choice, Server.step s (.poll id choice) = some s') server ∧
      ∀ id call, server.calls id = some call → ¬call.pc.Returned →
        (∃ choice : ServerChoice, choice.Given ∧ (server.step (.poll id choice)).isSome) ∨
          (call.pc = .select ∧ server.shared.backlog = [] ∧ server.shared.stopToken = false) := by
  have hruns : Runs Server.step (fun _ _ => True) Server.bound server :=
    runs_of_runLabels (fun _ _ _ => trivial) h
  refine ⟨?_, ?_, fun id call hcall hlive => ?_⟩
  · obtain ⟨handed, haccounts⟩ := accounts_bound.of_run h
    exact ⟨handed, by simpa using haccounts⟩
  · obtain ⟨ids, hids⟩ := Pool.exists_callsWithin hruns callsWithin_empty
    exact acc_of_rank (fun s => s.calls) (fun _ _ hserves => Server.measure hserves) hids
  · refine (call.exists_poll server.shared hlive).imp_left fun ⟨choice, hgiven, hpoll⟩ => ?_
    refine ⟨choice, hgiven, ?_⟩
    simp only [Pool.step, hcall, Option.isSome_map]
    exact hpoll

/-- Two clients arrive where one accept is dropped and another served, and one client waits. -/
def droppedRun : List (ServerLabel ℕ ℕ) :=
  [PoolLabel.call 0 .accept, .call 1 .acceptTimeout] ++ List.replicate 3 (PoolLabel.poll 0 .go) ++
    List.replicate 3 (PoolLabel.poll 1 .go) ++
    [PoolLabel.env 7, .env 8, .poll 0 .drop, .poll 1 .client]

theorem clients_accounted_dropped : ∃ server : Server ℕ ℕ,
    runLabels Server.step (fun _ _ => true) Server.bound droppedRun = some server ∧
      (∃ handed, server.Accounts [7, 8] handed) ∧ server.HandsOut 1 7 ∧
      server.shared.backlog = [8] :=
  ⟨_, rfl, (@clients_accounted ℕ ℕ _ _ droppedRun rfl).1, ⟨_, rfl, rfl⟩, rfl⟩

end Transport

end Taunicorn
