/-
# The list of sessions (`store.rs`)

`list_sessions` reads the rows of the sessions that were updated last, with their rollups.  In
every state of the store it has the newest sessions, each of them once, and says of each what its
turns add up to.
-/
import LlmCtl.CacheRate

namespace LlmCtl

open EventSystem ReadCommitted

/-! ## What a report says -/

/-- The report of a session says what its turns add up to. -/
structure ReportsTurns (v : Json) (sid : String) (rows : List StoredTurn) : Prop where
  id : v.get? "id" = some (.str sid)
  requests : v.get? "requests" = some (.int rows.length)
  prompt : v.get? "prompt_tokens" = some (.int (rows.map fun r => r.turn.usagePromptTokens).sum)
  completion : v.get? "completion_tokens" =
    some (.int (rows.map fun r => r.turn.usageCompletionTokens).sum)
  cache : v.get? "cache_tokens" = some (.int (rows.map fun r => r.turn.usageCachedTokens).sum)

/-- A row that agrees with the turns is reported with their sums. -/
theorem SessionRow.Agrees.reports {row : SessionRow} {rows : List StoredTurn}
    (h : row.Agrees rows) {checks : Bool} {v : Json} (hv : sessionReport checks row = some v) :
    ReportsTurns v row.id rows := by
  obtain ⟨pct, -, rfl⟩ := Option.map_eq_some_iff.mp hv
  constructor
  · rfl
  · rw [← h.requests]
    rfl
  · rw [← h.prompt]
    rfl
  · rw [← h.completion]
    rfl
  · rw [← h.cache]
    rfl

/-! ## The order of the list -/

/-- The sessions in the order of `list_sessions`. -/
def newestFirst (d : Tables) : List SessionRow :=
  d.sessions.mergeSort fun a b => decide (b.updatedAt ≤ a.updatedAt)

theorem newestFirst_perm (d : Tables) : (newestFirst d).Perm d.sessions :=
  List.mergeSort_perm _ _

theorem newestFirst_pairwise (d : Tables) :
    (newestFirst d).Pairwise fun a b => b.updatedAt ≤ a.updatedAt := by
  have hsorted : (newestFirst d).Pairwise fun a b => decide (b.updatedAt ≤ a.updatedAt) = true := by
    refine List.pairwise_mergeSort ?_ ?_ _
    · intro a b c hab hbc
      exact decide_eq_true ((of_decide_eq_true hbc).trans (of_decide_eq_true hab))
    · intro a b
      simpa using le_total b.updatedAt a.updatedAt
  exact hsorted.imp of_decide_eq_true

/-- Without overflow checks there is always a list. -/
theorem exists_listSessions (limit : ℕ) (d : Tables) :
    ∃ vs, listSessions false limit d = some vs := by
  have hreport : ∀ row, ∃ v, sessionReport false row = some v := by
    intro row
    rw [sessionReport, cacheHitPct, addI64]
    split
    · exact ⟨_, rfl⟩
    · exact ⟨_, rfl⟩
  rw [listSessions]
  generalize List.take limit _ = rows
  induction rows with
  | nil => exact ⟨[], rfl⟩
  | cons row rows ih =>
    obtain ⟨v, hv⟩ := hreport row
    obtain ⟨vs, hvs⟩ := ih
    exact ⟨v :: vs, by rw [List.mapM_cons, hv, hvs]; rfl⟩

/-- A list of reports is as long as it may be. -/
theorem length_listSessions {d : Tables} {checks : Bool} {limit : ℕ} {vs : List Json}
    (h : listSessions checks limit d = some vs) : vs.length = min limit d.sessions.length := by
  have hlen := (ListTable.of_mapM h).1
  rwa [List.length_take, List.length_mergeSort] at hlen

/-! ## The list in every state -/

/-- The list reports what the turns of the sessions add up to that were updated last: these
sessions, and those that are left out, are all. -/
structure ListsNewest (d : Tables) (vs : List Json) (shown hidden : List SessionRow) : Prop where
  all : (shown ++ hidden).Perm d.sessions
  newest : (shown ++ hidden).Pairwise fun a b => b.updatedAt ≤ a.updatedAt
  distinct : (shown.map SessionRow.id).Nodup
  length : shown.length = vs.length
  reports : ∀ (n : ℕ) (row : SessionRow) (v : Json), shown[n]? = some row → vs[n]? = some v →
    ReportsTurns v row.id (d.turnsOf row.id)

/-- The list of consistent tables. -/
theorem Tables.Consistent.listsNewest {d : Tables} (hd : d.Consistent) {checks : Bool}
    {limit : ℕ} {vs : List Json} (h : listSessions checks limit d = some vs) :
    ListsNewest d vs ((newestFirst d).take limit) ((newestFirst d).drop limit) := by
  obtain ⟨hlen, hget⟩ := ListTable.of_mapM h
  have hids : ((newestFirst d).map SessionRow.id).Nodup :=
    ((newestFirst_perm d).map SessionRow.id).nodup_iff.mpr hd.nodup
  constructor
  · rw [List.take_append_drop]
    exact newestFirst_perm d
  · rw [List.take_append_drop]
    exact newestFirst_pairwise d
  · exact hids.sublist ((List.take_sublist _ _).map _)
  · exact hlen.symm
  · intro n row v hrow hv
    have hreport : sessionReport checks row = some v := by
      have hn := hget n
      rw [hv] at hn
      rw [← newestFirst, hrow] at hn
      exact hn.symm
    have hmem : row ∈ d.sessions :=
      (newestFirst_perm d).mem_iff.mp (List.mem_of_mem_take (List.mem_of_getElem? hrow))
    exact (hd.agrees row hmem).reports hreport

/-- **The list of sessions**, in every state of the store: it is as long as it may be, it has the
sessions that were updated last, each of them once, and it reports what their turns add up to. -/
theorem sessions_view {lockKey : String → ℤ} {tr : List (Event StoreError)} {s : StoreState}
    (h : (storeSystem lockKey).Run Anything tr s) {checks : Bool} {limit : ℕ} {vs : List Json}
    (hvs : listSessions checks limit s.committed = some vs) :
    vs.length = min limit s.committed.sessions.length ∧
      ∃ shown hidden, ListsNewest s.committed vs shown hidden :=
  ⟨length_listSessions hvs, _, _, (consistent_of_run h).listsNewest hvs⟩

/-- The two turns of a session are listed. -/
theorem sessions_view_two :
    ∃ tr s vs, (storeSystem sessionLockKey).Run Anything tr s ∧
      listSessions false 20 s.committed = some vs ∧ vs.length = 1 ∧
      ∃ shown hidden, ListsNewest s.committed vs shown hidden := by
  obtain ⟨tr, s, h, hp⟩ := Run.reaches (storeSystem sessionLockKey) Anything twoRecorders
    (fun _ s => decide (s.committed.sessions.length = 1)) rfl (admits_anything _ _ _)
    (by decide)
  have hone : s.committed.sessions.length = 1 := of_decide_eq_true hp
  obtain ⟨vs, hvs⟩ := exists_listSessions 20 s.committed
  obtain ⟨hlen, hlists⟩ := sessions_view h hvs
  rw [hone] at hlen
  exact ⟨tr, s, vs, h, hvs, hlen, hlists⟩

end LlmCtl
