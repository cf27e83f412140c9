/-
# The writers of the store do not deadlock (`store.rs`)

`record_turn` takes the advisory lock of its session, then the session's row, then the entry of
the unique index for its turn, and keeps all of them to its end; `resolve_session` takes the row
alone.  So all of them lock in one order.
-/
import LlmCtl.LockRank
import LlmCtl.SessionStore

namespace LlmCtl

open EventSystem ReadCommitted Relation

/-- **The order**: the advisory locks, the rows of the sessions, the entries of the index. -/
def StoreLock.rank : StoreLock → ℕ
  | .advisory _ => 0
  | .session _ => 1
  | .turnIndex _ _ => 2

/-- What a writer may hold at a statement. -/
def StorePc.Fits : StorePc → List StoreLock → Prop
  | .resolve _ _ _, held | .lock _ _, held => held = []
  | .upsert _ _, held => ∀ l ∈ held, l.rank = 0
  | .selectIndex turn _, held | .insert turn _ _, held =>
    .session turn.sessionId ∈ held ∧ ∀ l ∈ held, l.rank ≤ 1
  | .rollup turn, held => .session turn.sessionId ∈ held
  | .commit, _ => True

/-- A statement that succeeds, and what is made of its result. -/
theorem exists_of_map_ok {ε α β : Type} {f : α → β} {x : Except ε α} {b : β}
    (h : x.map f = .ok b) : ∃ a, x = .ok a ∧ f a = b := by
  cases x with
  | error e => exact absurd h (by simp [Except.map])
  | ok a => exact ⟨a, rfl, Except.ok.inj h⟩

/-- **The writers lock in order.** -/
theorem storeClient_orderly (lockKey : String → ℤ) :
    (storeClient lockKey).Orderly StoreLock.rank StorePc.Fits where
  entry := by
    intro r
    cases r <;> rfl
  exec := by
    intro p d d' held ws p' hfits hx
    cases p with
    | resolve sid model now =>
      obtain ⟨-, rfl⟩ := Prod.mk.inj (Except.ok.inj hx)
      trivial
    | lock turn now =>
      obtain ⟨-, rfl⟩ := Prod.mk.inj (Except.ok.inj hx)
      obtain rfl : held = [] := hfits
      intro l hl
      obtain rfl : l = .advisory (lockKey turn.sessionId) := by
        simpa [storeClient, StorePc.locks] using hl
      rfl
    | upsert turn now =>
      obtain ⟨-, rfl⟩ := Prod.mk.inj (Except.ok.inj hx)
      refine ⟨List.mem_cons_self, fun l hl => ?_⟩
      rcases List.mem_cons.mp hl with rfl | hold
      · exact Nat.le_refl _
      · rw [hfits l hold]
        exact Nat.zero_le _
    | selectIndex turn now =>
      obtain ⟨index, -, heq⟩ := exists_of_map_ok hx
      obtain ⟨-, rfl⟩ := Prod.mk.inj heq
      exact hfits
    | insert turn now index =>
      obtain ⟨r, -, heq⟩ := exists_of_map_ok hx
      obtain ⟨-, rfl⟩ := Prod.mk.inj heq
      exact List.mem_append_right _ hfits.1
    | rollup turn =>
      obtain ⟨ws', -, heq⟩ := exists_of_map_ok hx
      obtain ⟨-, rfl⟩ := Prod.mk.inj heq
      trivial
    | commit =>
      obtain ⟨-, rfl⟩ := Prod.mk.inj (Except.ok.inj hx)
      trivial
  up := by
    intro p d held l m hfits hl hm
    cases p with
    | resolve sid model now =>
      obtain rfl : held = [] := hfits
      exact absurd hm List.not_mem_nil
    | lock turn now =>
      obtain rfl : held = [] := hfits
      exact absurd hm List.not_mem_nil
    | upsert turn now =>
      obtain rfl : l = .session turn.sessionId := by simpa [storeClient, StorePc.locks] using hl
      right
      rw [hfits m hm]
      exact Nat.one_pos
    | selectIndex turn now => exact absurd hl List.not_mem_nil
    | insert turn now index =>
      obtain rfl : l = .turnIndex turn.sessionId index := by
        simpa [storeClient, StorePc.locks] using hl
      exact .inr (Nat.lt_succ_of_le (hfits.2 m hm))
    | rollup turn =>
      -- the row is the transaction's own since its first write
      obtain rfl : l = .session turn.sessionId := by simpa [storeClient, StorePc.locks] using hl
      exact .inl hfits
    | commit => exact absurd hl List.not_mem_nil

/-- **The database never deadlocks.**  Whatever callers resolve sessions and record turns, in
whatever interleaving of their statements, no transactions wait for each other in a cycle, and
every open transaction can go on or waits, over others, for one that can. -/
theorem store_never_deadlocks {lockKey : String → ℤ} {tr : List (Event StoreError)}
    {s : StoreState} (h : (storeSystem lockKey).Run Anything tr s) :
    (∀ i, ¬ TransGen ((storeClient lockKey).WaitsFor s) i i) ∧
      ∀ i t, s.tx? i = some t → ∃ j a, ReflTransGen ((storeClient lockKey).WaitsFor s) i j ∧
        Act.GoesOn j a ∧ ((storeClient lockKey).step s a).isSome = true := by
  have hbound : ∀ l : StoreLock, l.rank < 3 := by
    intro l
    cases l <;> simp [StoreLock.rank]
  exact ⟨(storeClient_orderly lockKey).acyclic_of_run h, fun i t ht =>
    (storeClient_orderly lockKey).goes_on_of_run hbound h ht⟩

/-- The second of two recorders of one session waits for the first one, which can go on. -/
theorem store_never_deadlocks_two :
    ∃ tr s, (storeSystem sessionLockKey).Run Anything tr s ∧
      ((storeClient sessionLockKey).step s (.finish 1)).isNone = true ∧
      ∃ j a, ReflTransGen ((storeClient sessionLockKey).WaitsFor s) 1 j ∧ Act.GoesOn j a ∧
        ((storeClient sessionLockKey).step s a).isSome = true := by
  obtain ⟨tr, s, h, hp⟩ := Run.reaches (storeSystem sessionLockKey) Anything
    [.begin (.recordTurn (TurnRow.fake "s" "a") 1), .begin (.recordTurn (TurnRow.fake "s" "b") 2),
      .start 0, .finish 0, .start 1]
    (fun _ s => (s.tx? 1).isSome && ((storeClient sessionLockKey).step s (.finish 1)).isNone)
    rfl (admits_anything _ _ _) (by decide)
  rw [Bool.and_eq_true] at hp
  obtain ⟨t, ht⟩ := Option.isSome_iff_exists.mp hp.1
  exact ⟨tr, s, h, hp.2, (store_never_deadlocks h).2 1 t ht⟩

end LlmCtl
