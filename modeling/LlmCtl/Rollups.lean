/-
# The rollups equal their turns, and the turns are numbered without gaps

What keeps both is the lock on the session's row: `record_turn` takes it with its first write
and holds it to the end, and nobody writes a turn of a session without it.  So the turns of
the session stand still between the statement that counts them, the statement that
inserts the new one, and the commit.
-/
import LlmCtl.SessionStore

namespace LlmCtl

open EventSystem ReadCommitted

/-! ## Consistent tables -/

/-- The totals of a session's row agree with the turns of the session, and fit their columns. -/
structure SessionRow.Agrees (s : SessionRow) (rows : List StoredTurn) : Prop where
  requests : s.totalRequests = rows.length
  prompt : s.totalPromptTokens = (rows.map fun r => r.turn.usagePromptTokens).sum
  completion : s.totalCompletionTokens = (rows.map fun r => r.turn.usageCompletionTokens).sum
  cache : s.totalCacheTokens = (rows.map fun r => r.turn.usageCachedTokens).sum
  fits : s.fits = true

/-- The turns are numbered 0, 1, 2, … in the order of their insertion. -/
def Numbered (rows : List StoredTurn) : Prop :=
  rows.map StoredTurn.turnIndex = (List.range rows.length).map fun n : ℕ => (n : ℤ)

/-- What is committed is consistent. -/
structure Tables.Consistent (d : Tables) : Prop where
  nodup : (d.sessions.map SessionRow.id).Nodup
  owned : ∀ r ∈ d.turns, (d.session? r.turn.sessionId).isSome
  agrees : ∀ s ∈ d.sessions, s.Agrees (d.turnsOf s.id)
  numbered : ∀ sid, Numbered (d.turnsOf sid)

theorem Tables.mem_turnsOf {d : Tables} {sid : String} {r : StoredTurn} :
    r ∈ d.turnsOf sid ↔ r ∈ d.turns ∧ r.turn.sessionId = sid := by
  simp [Tables.turnsOf]

/-- A session without a row has no turns. -/
theorem Tables.Consistent.turnsOf_eq_nil {d : Tables} (hd : d.Consistent) {sid : String}
    (h : d.session? sid = none) : d.turnsOf sid = [] := by
  refine List.eq_nil_iff_forall_not_mem.mpr fun r hr => ?_
  obtain ⟨hmem, rfl⟩ := Tables.mem_turnsOf.mp hr
  have hsome := hd.owned r hmem
  rw [h] at hsome
  exact Bool.false_ne_true hsome

theorem upsertSession_id (sid model : String) (now : ℚ) (d : Tables) :
    (upsertSession sid model now d).id = sid := by
  unfold upsertSession
  cases h : d.session? sid with
  | none => rfl
  | some row =>
    have hid : row.id = sid := Tables.session?_id h
    exact hid

/-- The row that an upsert leaves keeps the totals. -/
theorem upsertSession_agrees {d : Tables} (hd : d.Consistent) (sid model : String) (now : ℚ) :
    (upsertSession sid model now d).Agrees (d.turnsOf sid) := by
  unfold upsertSession
  cases h : d.session? sid with
  | none =>
    rw [hd.turnsOf_eq_nil h]
    exact ⟨rfl, rfl, rfl, rfl, rfl⟩
  | some row =>
    have hrow : row.Agrees (d.turnsOf sid) :=
      Tables.session?_id h ▸ hd.agrees row (List.mem_of_find?_eq_some h)
    exact ⟨hrow.requests, hrow.prompt, hrow.completion, hrow.cache, hrow.fits⟩

/-- A turn more. -/
theorem SessionRow.Agrees.addTurn {s : SessionRow} {rows : List StoredTurn} (h : s.Agrees rows)
    (r : StoredTurn) (hfits : (s.addTurn r.turn).fits = true) :
    (s.addTurn r.turn).Agrees (rows ++ [r]) where
  requests := by simp [SessionRow.addTurn, h.requests]
  prompt := by simp [SessionRow.addTurn, h.prompt]
  completion := by simp [SessionRow.addTurn, h.completion]
  cache := by simp [SessionRow.addTurn, h.cache]
  fits := hfits

/-- The next turn continues the numbering. -/
theorem Numbered.concat {rows : List StoredTurn} (h : Numbered rows) {r : StoredTurn}
    (hr : r.turnIndex = rows.length) : Numbered (rows ++ [r]) := by
  unfold Numbered at h ⊢
  rw [List.map_append, h, List.length_append, List.length_singleton, List.range_succ,
    List.map_append, List.map_singleton, List.map_singleton, hr]

/-- The largest number is one less than the number of turns. -/
theorem Numbered.nextTurnIndex {sid : String} {d : Tables} (h : Numbered (d.turnsOf sid)) {n : ℤ}
    (hn : nextTurnIndex sid d = .ok n) : n = (d.turnsOf sid).length := by
  have hmax : ((d.turnsOf sid).map StoredTurn.turnIndex).max?.getD (-1)
      = (d.turnsOf sid).length - 1 := by
    rw [h]
    cases (d.turnsOf sid).length with
    | zero => rfl
    | succ k =>
      have hk : ((List.range (k + 1)).map fun n : ℕ => (n : ℤ)).max? = some (k : ℤ) := by
        refine List.max?_eq_some_iff.mpr ⟨List.mem_map.mpr ⟨k, by simp, rfl⟩, ?_⟩
        intro b hb
        obtain ⟨m, hm, rfl⟩ := List.mem_map.mp hb
        have hlt : m < k + 1 := List.mem_range.mp hm
        omega
      rw [hk, Option.getD_some]
      push_cast
      omega
  unfold LlmCtl.nextTurnIndex at hn
  simp only [hmax] at hn
  split at hn
  · obtain rfl := Except.ok.inj hn
    omega
  · exact absurd hn (by simp)

/-- A number that is not taken yet. -/
theorem Numbered.not_taken {rows : List StoredTurn} (h : Numbered rows) :
    rows.any (fun x => x.turnIndex == (rows.length : ℤ)) = false := by
  refine List.any_eq_false.mpr fun x hx => ?_
  have hmem : x.turnIndex ∈ rows.map StoredTurn.turnIndex := List.mem_map_of_mem hx
  rw [h] at hmem
  obtain ⟨m, hm, hxm⟩ := List.mem_map.mp hmem
  have hlt : m < rows.length := List.mem_range.mp hm
  simp only [← hxm, beq_iff_eq]
  omega

/-! ## What is published -/

/-- A session's row with the totals of its turns. -/
theorem Tables.Consistent.putSession {d : Tables} (hd : d.Consistent) {row : SessionRow}
    (h : row.Agrees (d.turnsOf row.id)) : (d.putSession row).Consistent where
  nodup := Tables.nodup_putSession hd.nodup row
  owned := by
    intro r hr
    rw [Tables.session?_putSession]
    split
    · rfl
    · exact hd.owned r hr
  agrees := by
    intro s hs
    rcases Tables.mem_putSession.mp hs with rfl | ⟨hs, -⟩
    · exact h
    · exact hd.agrees s hs
  numbered := hd.numbered

/-- A turn together with the totals that include it. -/
theorem Tables.Consistent.record {d : Tables} (hd : d.Consistent) {row : SessionRow}
    {r : StoredTurn} (hid : r.turn.sessionId = row.id)
    (hindex : r.turnIndex = (d.turnsOf row.id).length)
    (h : row.Agrees (d.turnsOf row.id ++ [r])) : ((d.insertTurn r).putSession row).Consistent where
  nodup := Tables.nodup_putSession hd.nodup row
  owned := by
    intro x hx
    rw [Tables.session?_putSession]
    split
    · rfl
    · next hne =>
      rcases List.mem_append.mp hx with hx | hx
      · exact hd.owned x hx
      · obtain rfl := List.mem_singleton.mp hx
        exact absurd hid.symm hne
  agrees := by
    intro s hs
    rw [Tables.turnsOf_putSession, Tables.turnsOf_insertTurn]
    rcases Tables.mem_putSession.mp hs with rfl | ⟨hs, hne⟩
    · rw [if_pos hid]
      exact h
    · rw [if_neg (fun heq => hne (heq.symm.trans hid)), List.append_nil]
      exact hd.agrees s hs
  numbered := by
    intro sid
    rw [Tables.turnsOf_putSession, Tables.turnsOf_insertTurn]
    split
    · next heq =>
      obtain rfl := hid.symm.trans heq
      exact (hd.numbered _).concat hindex
    · rw [List.append_nil]
      exact hd.numbered sid

/-! ## The transactions -/

/-- The lock without which a row is not written. -/
def RowWrite.needs : RowWrite → StoreLock
  | .session row => .session row.id
  | .turn r => .session r.turn.sessionId

/-- The transaction holds the session `sid`, and `row` is up to date with its turns. -/
structure Prepared (d : Tables) (t : StoreTx) (sid : String) (row : SessionRow) : Prop where
  held : .session sid ∈ t.held
  id : row.id = sid
  agrees : row.Agrees (d.turnsOf sid)

/-- What a transaction has written when it is about to insert its turn. -/
structure Inserting (d : Tables) (t : StoreTx) (sid : String) : Prop where
  row : ∃ row, t.writes = [.session row] ∧ Prepared d t sid row

/-- What a transaction has written when its turn is inserted. -/
structure Inserted (d : Tables) (t : StoreTx) (r : StoredTurn) (row : SessionRow) : Prop where
  writes : t.writes = [.session row, .turn r]
  prepared : Prepared d t r.turn.sessionId row
  index : r.turnIndex = (d.turnsOf r.turn.sessionId).length

/-- What a transaction that records a turn publishes. -/
structure Recorded (d : Tables) (t : StoreTx) (r : StoredTurn) (old row : SessionRow) : Prop where
  writes : t.writes = [.session old, .turn r, .session row]
  held : .session row.id ∈ t.held
  old : old.id = row.id
  id : r.turn.sessionId = row.id
  index : r.turnIndex = (d.turnsOf row.id).length
  agrees : row.Agrees (d.turnsOf row.id ++ [r])

/-- **The assertion about an open transaction**, by the next statement. -/
def StoreOwn (d : Tables) (t : StoreTx) : Prop :=
  match t.pc with
  | .resolve _ _ _ | .lock _ _ | .upsert _ _ => t.writes = []
  | .selectIndex turn _ =>
    Inserting d t turn.sessionId ∧
      ∀ d', t.snapshot = some d' → d'.turnsOf turn.sessionId = d.turnsOf turn.sessionId
  | .insert turn _ index =>
    Inserting d t turn.sessionId ∧ index = (d.turnsOf turn.sessionId).length
  | .rollup turn => ∃ r row, r.turn = turn ∧ Inserted d t r row
  | .commit =>
    (∃ sid row, t.writes = [.session row] ∧ Prepared d t sid row) ∨
      ∃ r old row, Recorded d t r old row

/-! ### The commits of others -/

section Frame

variable {d d' : Tables} {t : StoreTx}
  (hturns : ∀ sid, .session sid ∈ t.held → d'.turnsOf sid = d.turnsOf sid)

include hturns

theorem Prepared.frame {sid : String} {row : SessionRow} (h : Prepared d t sid row) :
    Prepared d' t sid row where
  held := h.held
  id := h.id
  agrees := by
    rw [hturns sid h.held]
    exact h.agrees

theorem Inserting.frame {sid : String} (h : Inserting d t sid) : Inserting d' t sid where
  row := by
    obtain ⟨row, hw, hp⟩ := h.row
    exact ⟨row, hw, hp.frame hturns⟩

theorem Inserting.turnsOf {sid : String} (h : Inserting d t sid) :
    d'.turnsOf sid = d.turnsOf sid := by
  obtain ⟨row, -, hp⟩ := h.row
  exact hturns sid hp.held

/-- The assertion only looks at the turns of the sessions that the transaction holds. -/
theorem StoreOwn.frame (h : StoreOwn d t) : StoreOwn d' t := by
  unfold StoreOwn at h ⊢
  cases hpc : t.pc with
  | resolve | lock | upsert => simpa only [hpc] using h
  | selectIndex turn now =>
    simp only [hpc] at h ⊢
    refine ⟨h.1.frame hturns, fun d₁ hd₁ => ?_⟩
    rw [h.1.turnsOf hturns]
    exact h.2 d₁ hd₁
  | insert turn now index =>
    simp only [hpc] at h ⊢
    rw [h.1.turnsOf hturns]
    exact ⟨h.1.frame hturns, h.2⟩
  | rollup turn =>
    simp only [hpc] at h ⊢
    obtain ⟨r, row, hr, hi⟩ := h
    refine ⟨r, row, hr, hi.writes, hi.prepared.frame hturns, ?_⟩
    rw [hturns _ hi.prepared.held]
    exact hi.index
  | commit =>
    simp only [hpc] at h ⊢
    rcases h with ⟨sid, row, hw, hp⟩ | ⟨r, old, row, hr⟩
    · exact .inl ⟨sid, row, hw, hp.frame hturns⟩
    · refine .inr ⟨r, old, row, hr.writes, hr.held, hr.old, hr.id, ?_, ?_⟩
      · rw [hturns _ hr.held]
        exact hr.index
      · rw [hturns _ hr.held]
        exact hr.agrees

end Frame

/-- What is about to be published is covered by the locks of its transaction. -/
theorem StoreOwn.covered {d : Tables} {t : StoreTx} (h : StoreOwn d t) (hpc : t.pc = .commit) :
    ∀ w ∈ t.writes, w.needs ∈ t.held := by
  unfold StoreOwn at h
  simp only [hpc] at h
  rcases h with ⟨sid, row, hw, hp⟩ | ⟨r, old, row, hr⟩
  · intro w hmem
    rw [hw] at hmem
    obtain rfl := List.mem_singleton.mp hmem
    rw [RowWrite.needs, hp.id]
    exact hp.held
  · have hold : RowWrite.needs (.session old) = .session row.id := by
      rw [RowWrite.needs, hr.old]
    have hturn : RowWrite.needs (.turn r) = .session row.id := by
      rw [RowWrite.needs, hr.id]
    intro w hmem
    rw [hr.writes] at hmem
    simp only [List.mem_cons, List.not_mem_nil, or_false] at hmem
    rcases hmem with rfl | rfl | rfl
    · rw [hold]
      exact hr.held
    · rw [hturn]
      exact hr.held
    · exact hr.held

/-- A row that does not need the lock of a session leaves the turns of the session alone. -/
theorem turnsOf_apply {sid : String} {w : RowWrite} (h : w.needs ≠ .session sid) (d : Tables) :
    (w.apply d).turnsOf sid = d.turnsOf sid := by
  cases w with
  | session row => rfl
  | turn r =>
    have hne : r.turn.sessionId ≠ sid := fun heq => h (by rw [RowWrite.needs, heq])
    rw [RowWrite.apply, Tables.turnsOf_insertTurn, if_neg hne, List.append_nil]

/-! ### The steps -/

variable (lockKey : String → ℤ)

/-- A turn that can be inserted is inserted as it is. -/
theorem insertTurnRow_eq {r r' : StoredTurn} {latest : Tables}
    (h : insertTurnRow r latest = .ok r') : r' = r := by
  unfold insertTurnRow at h
  split at h
  · exact absurd h (by simp)
  · split at h
    · exact absurd h (by simp)
    · split at h
      · exact absurd h (by simp)
      · exact (Except.ok.inj h).symm

/-- The statement at the program point of a transaction keeps the assertion. -/
theorem StoreOwn.exec {d d' : Tables} {t : StoreTx} {ws : List RowWrite} {pc : StorePc}
    (hd : d.Consistent) (h : StoreOwn d t) (hsn : t.snapshot = some d')
    (hx : t.pc.exec ((storeClient lockKey).replay t.writes d')
      ((storeClient lockKey).replay t.writes d) = .ok (ws, pc)) :
    StoreOwn d ((storeClient lockKey).executed t d' ws pc) := by
  unfold StoreOwn at h
  cases hpc : t.pc with
  | resolve sid model now =>
    simp only [hpc, StorePc.exec, Except.ok.injEq, Prod.mk.injEq] at h hx
    obtain ⟨rfl, rfl⟩ := hx
    rw [h, Client.replay_nil]
    refine .inl ⟨sid, _, ?_, ?_, upsertSession_id sid model now d,
      upsertSession_agrees hd sid model now⟩
    · simp [Client.executed, h]
    · simp [Client.executed, hpc, storeClient, StorePc.locks]
  | lock turn now =>
    simp only [hpc, StorePc.exec, Except.ok.injEq, Prod.mk.injEq] at h hx
    obtain ⟨rfl, rfl⟩ := hx
    simp [StoreOwn, Client.executed, h]
  | upsert turn now =>
    simp only [hpc, StorePc.exec, Except.ok.injEq, Prod.mk.injEq] at h hx
    obtain ⟨rfl, rfl⟩ := hx
    rw [h, Client.replay_nil]
    refine ⟨⟨upsertSession turn.sessionId turn.requestModel now d, ?_, ?_,
      upsertSession_id _ _ _ _, upsertSession_agrees hd _ _ _⟩,
      fun d₁ hd₁ => absurd hd₁ (by simp [Client.executed])⟩
    · simp [Client.executed, h]
    · simp [Client.executed, hpc, storeClient, StorePc.locks]
  | selectIndex turn now =>
    simp only [hpc, StorePc.exec] at h hx
    obtain ⟨⟨row, hw, hp⟩, hsnap⟩ := h
    -- The snapshot was taken with the session in hand, so it shows the turns of now.
    have hsame : ((storeClient lockKey).replay t.writes d').turnsOf turn.sessionId
        = d.turnsOf turn.sessionId := by
      rw [hw]
      exact hsnap d' hsn
    cases hn : nextTurnIndex turn.sessionId ((storeClient lockKey).replay t.writes d') with
    | error e =>
      rw [hn] at hx
      exact absurd hx (by simp [Except.map])
    | ok index =>
      rw [hn] at hx
      simp only [Except.map, Except.ok.injEq, Prod.mk.injEq] at hx
      obtain ⟨rfl, rfl⟩ := hx
      have hindex : index = (d.turnsOf turn.sessionId).length := by
        rw [← hsame]
        refine Numbered.nextTurnIndex ?_ hn
        rw [hsame]
        exact hd.numbered turn.sessionId
      refine ⟨⟨row, ?_, List.mem_append_right _ hp.held, hp.id, hp.agrees⟩, hindex⟩
      simp [Client.executed, hw]
  | insert turn now index =>
    simp only [hpc, StorePc.exec] at h hx
    obtain ⟨⟨row, hw, hp⟩, hindex⟩ := h
    cases hn : insertTurnRow ⟨index, now, turn⟩ ((storeClient lockKey).replay t.writes d) with
    | error e =>
      rw [hn] at hx
      exact absurd hx (by simp [Except.map])
    | ok r =>
      rw [hn] at hx
      simp only [Except.map, Except.ok.injEq, Prod.mk.injEq] at hx
      obtain ⟨rfl, rfl⟩ := hx
      obtain rfl := insertTurnRow_eq hn
      refine ⟨⟨index, now, turn⟩, row, rfl, ?_, ?_, hindex⟩
      · simp [Client.executed, hw]
      · exact ⟨List.mem_append_right _ hp.held, hp.id, hp.agrees⟩
  | rollup turn =>
    simp only [hpc, StorePc.exec] at h hx
    obtain ⟨r, row, rfl, hw, hp, hindex⟩ := h
    -- Both versions of the session's row are the one that the transaction wrote.
    have hrow : ∀ d₁, ((storeClient lockKey).replay t.writes d₁).session? r.turn.sessionId
        = some row := by
      intro d₁
      rw [hw]
      exact (Tables.session?_putSession d₁ row _).trans (if_pos hp.id)
    unfold rollup at hx
    rw [hrow, hrow] at hx
    by_cases hfits : (row.addTurn r.turn).fits = true
    · simp only [hfits, if_true, Except.map, Except.ok.injEq, Prod.mk.injEq] at hx
      obtain ⟨rfl, rfl⟩ := hx
      refine .inr ⟨r, row, row.addTurn r.turn, ?_, ?_, rfl, hp.id.symm, ?_, ?_⟩
      · simp [Client.executed, hw]
      · exact List.mem_append_right _ (hp.id ▸ hp.held)
      · exact hp.id ▸ hindex
      · exact hp.id ▸ hp.agrees.addTurn r hfits
    · simp [hfits, Except.map] at hx
  | commit =>
    simp only [hpc, StorePc.exec, Except.ok.injEq, Prod.mk.injEq] at h hx
    obtain ⟨rfl, rfl⟩ := hx
    rcases h with ⟨sid, row, hw, hp⟩ | ⟨r, old, row, hr⟩
    · refine .inl ⟨sid, row, ?_, List.mem_append_right _ hp.held, hp.id, hp.agrees⟩
      simp [Client.executed, hw]
    · refine .inr ⟨r, old, row, ?_, List.mem_append_right _ hr.held, hr.old, hr.id, hr.index,
        hr.agrees⟩
      simp [Client.executed, hr.writes]

/-- No statement fails on the unique index: the number that was counted is still free. -/
theorem StoreOwn.exec_ne_unique {d d' : Tables} {t : StoreTx} (hd : d.Consistent)
    (h : StoreOwn d t) :
    t.pc.exec ((storeClient lockKey).replay t.writes d')
      ((storeClient lockKey).replay t.writes d) ≠ .error .uniqueViolation := by
  unfold StoreOwn at h
  cases hpc : t.pc with
  | resolve | lock | upsert | commit => simp [StorePc.exec]
  | selectIndex turn now =>
    rw [StorePc.exec, nextTurnIndex]
    split <;> simp [Except.map]
  | insert turn now index =>
    simp only [hpc] at h
    obtain ⟨⟨row, hw, -⟩, hindex⟩ := h
    have hfree : (((storeClient lockKey).replay t.writes d).turnsOf turn.sessionId).any
        (fun x => x.turnIndex == index) = false := by
      rw [hw, hindex]
      exact (hd.numbered turn.sessionId).not_taken
    rw [StorePc.exec, insertTurnRow]
    simp only [hfree, Bool.false_eq_true, if_false]
    split
    · simp [Except.map]
    · split <;> simp [Except.map]
  | rollup turn =>
    rw [StorePc.exec, LlmCtl.rollup]
    split
    · split <;> simp [Except.map]
    · simp [Except.map]

/-- A commit keeps the tables consistent. -/
theorem StoreOwn.commit {d : Tables} {t : StoreTx} (hd : d.Consistent) (h : StoreOwn d t)
    (hpc : t.pc = .commit) : ((storeClient lockKey).replay t.writes d).Consistent := by
  unfold StoreOwn at h
  simp only [hpc] at h
  rcases h with ⟨sid, row, hw, hp⟩ | ⟨r, old, row, hr⟩
  · rw [hw]
    exact hd.putSession (hp.id ▸ hp.agrees)
  · have hreplay : (storeClient lockKey).replay t.writes d
        = (d.insertTurn r).putSession row := by
      rw [hr.writes]
      exact Tables.putSession_putSession (d.insertTurn r) hr.old.symm
    rw [hreplay]
    exact hd.record hr.id hr.index hr.agrees

/-- Only the last program point is left to the commit. -/
theorem storeClient_done {pc : StorePc} (h : (storeClient lockKey).done pc = true) :
    pc = .commit := by
  cases pc with
  | commit => rfl
  | resolve | lock | upsert | selectIndex | insert | rollup => exact absurd h Bool.false_ne_true

/-- **The store keeps its tables consistent.** -/
theorem store_assertions :
    (storeClient lockKey).Assertions Tables.empty (fun _ => True) Tables.Consistent StoreOwn where
  init := by
    constructor
    · exact List.nodup_nil
    · exact fun r hr => absurd hr List.not_mem_nil
    · exact fun s hs => absurd hs List.not_mem_nil
    · exact fun sid => rfl
  fresh := by
    intro d r _ _
    cases r <;> rfl
  start := by
    intro d t _ h _ _
    unfold StoreOwn at h ⊢
    cases hpc : t.pc with
    | resolve | lock | upsert => simpa only [hpc] using h
    | selectIndex turn now =>
      simp only [hpc] at h ⊢
      obtain ⟨⟨row, hw, hp⟩, -⟩ := h
      refine ⟨⟨row, hw, hp.held, hp.id, hp.agrees⟩, fun d' hd' => ?_⟩
      rw [← Option.some.inj hd']
    | insert turn now index =>
      simp only [hpc] at h ⊢
      obtain ⟨⟨row, hw, hp⟩, hindex⟩ := h
      exact ⟨⟨row, hw, hp.held, hp.id, hp.agrees⟩, hindex⟩
    | rollup turn =>
      simp only [hpc] at h ⊢
      obtain ⟨r, row, hr, hw, hp, hindex⟩ := h
      exact ⟨r, row, hr, hw, ⟨hp.held, hp.id, hp.agrees⟩, hindex⟩
    | commit =>
      simp only [hpc] at h ⊢
      rcases h with ⟨sid, row, hw, hp⟩ | ⟨r, old, row, hr⟩
      · exact .inl ⟨sid, row, hw, hp.held, hp.id, hp.agrees⟩
      · exact .inr ⟨r, old, row, hr.writes, hr.held, hr.old, hr.id, hr.index, hr.agrees⟩
  exec := fun d t d' ws pc hd h hsn hx => h.exec lockKey hd hsn hx
  commit := fun d t hd h hdone => h.commit lockKey hd (storeClient_done lockKey hdone)
  other := by
    intro d t u _ ht hu hdone hdisj
    refine ht.frame fun sid hheld => ?_
    refine (storeClient lockKey).replay_protected (fun d => d.turnsOf sid)
      RowWrite.needs (fun w d hw => turnsOf_apply hw d) (fun w hw heq => ?_) d
    have hcov := hu.covered (storeClient_done lockKey hdone) w hw
    rw [heq] at hcov
    exact hdisj _ hheld hcov

/-! ## What is stored comes from the calls -/

/-- The session that a call writes. -/
def StoreCall.sessionId : StoreCall → String
  | .resolveSession clientId _ random _ => resolvedId clientId random
  | .recordTurn turn _ => turn.sessionId

/-- The turn that a call records. -/
def StoreCall.turn? : StoreCall → Option TurnRow
  | .resolveSession _ _ _ _ => none
  | .recordTurn turn _ => some turn

/-- The call that a program point belongs to writes only what `P` and `Q` allow. -/
def StorePc.Writes (P : TurnRow → Prop) (Q : String → Prop) : StorePc → Prop
  | .resolve sid _ _ => Q sid
  | .lock turn _ | .upsert turn _ | .selectIndex turn _ | .insert turn _ _ | .rollup turn =>
    Q turn.sessionId ∧ P turn
  | .commit => True

/-- A row with only what `P` and `Q` allow. -/
def RowWrite.Allowed (P : TurnRow → Prop) (Q : String → Prop) : RowWrite → Prop
  | .session row => Q row.id
  | .turn r => P r.turn

/-- Tables with only what `P` and `Q` allow. -/
structure Tables.Allowed (P : TurnRow → Prop) (Q : String → Prop) (d : Tables) : Prop where
  sessions : ∀ row ∈ d.sessions, Q row.id
  turns : ∀ r ∈ d.turns, P r.turn

/-- A statement writes rows of the call that it belongs to. -/
theorem StorePc.Writes.exec {P : TurnRow → Prop} {Q : String → Prop} {pc pc' : StorePc}
    {snapshot latest : Tables} {ws : List RowWrite} (h : pc.Writes P Q)
    (hx : pc.exec snapshot latest = .ok (ws, pc')) :
    pc'.Writes P Q ∧ ∀ w ∈ ws, w.Allowed P Q := by
  cases pc with
  | resolve sid model now =>
    simp only [StorePc.exec, Except.ok.injEq, Prod.mk.injEq] at hx
    obtain ⟨rfl, rfl⟩ := hx
    refine ⟨trivial, List.forall_mem_singleton.mpr ?_⟩
    rw [RowWrite.Allowed, upsertSession_id]
    exact h
  | lock turn now =>
    simp only [StorePc.exec, Except.ok.injEq, Prod.mk.injEq] at hx
    obtain ⟨rfl, rfl⟩ := hx
    exact ⟨h, fun w hw => absurd hw List.not_mem_nil⟩
  | upsert turn now =>
    simp only [StorePc.exec, Except.ok.injEq, Prod.mk.injEq] at hx
    obtain ⟨rfl, rfl⟩ := hx
    refine ⟨h, List.forall_mem_singleton.mpr ?_⟩
    rw [RowWrite.Allowed, upsertSession_id]
    exact h.1
  | selectIndex turn now =>
    rw [StorePc.exec] at hx
    cases hn : nextTurnIndex turn.sessionId snapshot with
    | error e => simp [hn, Except.map] at hx
    | ok index =>
      simp only [hn, Except.map, Except.ok.injEq, Prod.mk.injEq] at hx
      obtain ⟨rfl, rfl⟩ := hx
      exact ⟨h, fun w hw => absurd hw List.not_mem_nil⟩
  | insert turn now index =>
    rw [StorePc.exec] at hx
    cases hn : insertTurnRow ⟨index, now, turn⟩ latest with
    | error e => simp [hn, Except.map] at hx
    | ok r =>
      simp only [hn, Except.map, Except.ok.injEq, Prod.mk.injEq] at hx
      obtain ⟨rfl, rfl⟩ := hx
      obtain rfl := insertTurnRow_eq hn
      exact ⟨h, List.forall_mem_singleton.mpr h.2⟩
  | rollup turn =>
    rw [StorePc.exec] at hx
    cases hn : LlmCtl.rollup turn snapshot latest with
    | error e => simp [hn, Except.map] at hx
    | ok vs =>
      simp only [hn, Except.map, Except.ok.injEq, Prod.mk.injEq] at hx
      obtain ⟨rfl, rfl⟩ := hx
      refine ⟨trivial, fun w hw => ?_⟩
      unfold LlmCtl.rollup at hn
      split at hn
      · next row _ hrow =>
        split at hn
        · obtain rfl := Except.ok.inj hn
          obtain rfl := List.mem_singleton.mp hw
          rw [RowWrite.Allowed, SessionRow.addTurn, Tables.session?_id hrow]
          exact h.1
        · exact absurd hn (by simp)
      · obtain rfl := Except.ok.inj hn
        exact absurd hw List.not_mem_nil
  | commit =>
    simp only [StorePc.exec, Except.ok.injEq, Prod.mk.injEq] at hx
    obtain ⟨rfl, rfl⟩ := hx
    exact ⟨trivial, fun w hw => absurd hw List.not_mem_nil⟩

/-- Allowed rows keep the tables allowed. -/
theorem Tables.Allowed.replay {P : TurnRow → Prop} {Q : String → Prop} {ws : List RowWrite}
    {d : Tables} (hd : d.Allowed P Q) (hws : ∀ w ∈ ws, w.Allowed P Q) :
    ((storeClient lockKey).replay ws d).Allowed P Q := by
  induction ws generalizing d with
  | nil => exact hd
  | cons w ws ih =>
    refine ih ?_ fun v hv => hws v (List.mem_cons_of_mem _ hv)
    have hw := hws w List.mem_cons_self
    cases w with
    | session row =>
      refine ⟨fun s hs => ?_, hd.turns⟩
      rcases Tables.mem_putSession.mp hs with rfl | ⟨hs, -⟩
      · exact hw
      · exact hd.sessions s hs
    | turn r =>
      refine ⟨hd.sessions, fun x hx => ?_⟩
      rcases List.mem_append.mp hx with hx | hx
      · exact hd.turns x hx
      · obtain rfl := List.mem_singleton.mp hx
        exact hw

/-- **What is stored comes from the calls.**  When all calls write only sessions that satisfy
`Q` and turns that satisfy `P`, so are all rows that are ever committed. -/
theorem allowed_of_run {P : TurnRow → Prop} {Q : String → Prop}
    {ok : List (Event StoreError) → StoreState → Act StoreCall → Prop}
    (hask : ∀ tr s r, ok tr s (.begin r) → Q r.sessionId ∧ ∀ t, r.turn? = some t → P t)
    {tr : List (Event StoreError)} {s : StoreState} (h : (storeSystem lockKey).Run ok tr s) :
    s.committed.Allowed P Q := by
  have hA : (storeClient lockKey).Assertions Tables.empty
      (fun r => Q r.sessionId ∧ ∀ t, r.turn? = some t → P t) (Tables.Allowed P Q)
      (fun _ t => t.pc.Writes P Q ∧ ∀ w ∈ t.writes, w.Allowed P Q) :=
    { init := ⟨fun s hs => absurd hs List.not_mem_nil, fun r hr => absurd hr List.not_mem_nil⟩
      fresh := by
        intro d r hr _
        refine ⟨?_, fun w hw => absurd hw List.not_mem_nil⟩
        cases r with
        | resolveSession clientId model random now => exact hr.1
        | recordTurn turn now => exact ⟨hr.1, hr.2 turn rfl⟩
      start := fun d t _ ht _ _ => ht
      exec := by
        intro d t d' ws pc _ ht _ hx
        obtain ⟨hpc, hws⟩ := ht.1.exec hx
        refine ⟨hpc, fun w hw => ?_⟩
        rcases List.mem_append.mp hw with hw | hw
        · exact ht.2 w hw
        · exact hws w hw
      commit := fun d t hd ht _ => hd.replay lockKey ht.2
      other := fun d t u _ ht _ _ _ => ht }
  exact (hA.holds hask h).1

/-! ## Over whole runs -/

variable {lockKey}

/-- What is committed is consistent at any time. -/
theorem consistent_of_run {tr : List (Event StoreError)} {s : StoreState}
    (h : (storeSystem lockKey).Run Anything tr s) : s.committed.Consistent :=
  ((store_assertions lockKey).holds (fun _ _ _ _ => trivial) h).1

/-- **The rollups equal their turns**, whichever keys the advisory lock uses: every turn has
its session, every session's totals are those of its turns, and only a commit changes what
is committed. -/
theorem rollups_equal_turns {tr : List (Event StoreError)} {s : StoreState}
    (h : (storeSystem lockKey).Run Anything tr s) :
    (∀ r ∈ s.committed.turns, ∃ row ∈ s.committed.sessions, row.id = r.turn.sessionId) ∧
      (∀ row ∈ s.committed.sessions, row.Agrees (s.committed.turnsOf row.id)) ∧
      ∀ a s' ev, (storeSystem lockKey).step s a = some (s', ev) → (∀ i, .committed i ∉ ev) →
        s'.committed = s.committed := by
  have hd := consistent_of_run h
  refine ⟨fun r hr => ?_, hd.agrees, fun a s' ev hs hev => ?_⟩
  · obtain ⟨row, hrow⟩ := Option.isSome_iff_exists.mp (hd.owned r hr)
    exact ⟨row, List.mem_of_find?_eq_some hrow, Tables.session?_id hrow⟩
  · exact (storeClient lockKey).committed_of_no_commit hs hev

/-- Two callers record a turn of one session.  The second one asks for the lock while the first
one holds it, and takes its snapshots only afterwards. -/
def twoRecorders : List (Act StoreCall) :=
  List.flatten [[.begin (.recordTurn (TurnRow.fake "s" "a") 1),
      .begin (.recordTurn (TurnRow.fake "s" "b") 2), .start 0, .finish 0, .start 1],
    (List.replicate 4 [.start 0, .finish 0]).flatten, [.commit 0, .finish 1],
    (List.replicate 4 [.start 1, .finish 1]).flatten, [.commit 1]]

theorem rollups_equal_turns_two :
    ∃ tr s, (storeSystem sessionLockKey).Run Anything tr s ∧
      (s.committed.turns.length = 2 ∧ s.committed.sessions.length = 1) ∧
      ∀ row ∈ s.committed.sessions, row.Agrees (s.committed.turnsOf row.id) := by
  obtain ⟨tr, s, h, hp⟩ := Run.reaches (storeSystem sessionLockKey) Anything twoRecorders
    (fun _ s => decide (s.committed.turns.length = 2 ∧ s.committed.sessions.length = 1))
    rfl (admits_anything _ _ _) (by decide)
  exact ⟨tr, s, h, by simpa using hp, (rollups_equal_turns h).2.1⟩

/-- **The turns of every session are numbered without gaps**, whichever keys the advisory lock
uses and however many ids share one, and the unique index never fails a transaction. -/
theorem turn_indices_gap_free {tr : List (Event StoreError)} {s : StoreState}
    (h : (storeSystem lockKey).Run Anything tr s) :
    (∀ sid, (s.committed.turnsOf sid).map StoredTurn.turnIndex
        = (List.range (s.committed.turnsOf sid).length).map fun n : ℕ => (n : ℤ)) ∧
      ∀ i, .failed i .uniqueViolation ∉ tr := by
  refine ⟨(consistent_of_run h).numbered, fun i => ?_⟩
  exact (store_assertions lockKey).never_fails (fun _ _ _ _ => trivial)
    (fun d t d' hd ht hsn => ht.exec_ne_unique lockKey hd) h i

theorem turn_indices_gap_free_two :
    ∃ tr s, (storeSystem sessionLockKey).Run Anything tr s ∧
      (s.committed.turnsOf "s").length = 2 ∧ ∀ i, .failed i .uniqueViolation ∉ tr := by
  obtain ⟨tr, s, h, hp⟩ := Run.reaches (storeSystem sessionLockKey) Anything twoRecorders
    (fun _ s => decide ((s.committed.turnsOf "s").length = 2)) rfl (admits_anything _ _ _)
    (by decide)
  exact ⟨tr, s, h, by simpa using hp, (turn_indices_gap_free h).2⟩

end LlmCtl
