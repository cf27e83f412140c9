/-
# The log of the jobs in the panel (`web/assets/app.js`)

The panel has one pane for the logs of both jobs.  It follows a job that runs, the rebuild where
both do, and shows the log of this job once more when the job is over; the log of a job that it
does not follow never appears.  So what the pane shows after any replies is given by the last one
in which a job ran, and by the first one after it in which this job is over.
-/
import LlmCtl.PanelSafe

namespace LlmCtl

namespace Panel

open Js Api

/-! ## The pane -/

/-- The jobs that the panel shows. -/
inductive JobKind where
  | hf
  | rebuild
  deriving DecidableEq, Repr

/-- The name that `render` gives to `renderJob`. -/
def JobKind.name : JobKind → String
  | .hf => "hf"
  | .rebuild => "rebuild"

/-- What `renderJob` reads of a job for the pane. -/
structure ShownJob where
  status : JobStatus
  log : List String

/-- The jobs of a status reply. -/
structure JobsReply where
  download : DownloadJob
  rebuild : RebuildJob

/-- One of them. -/
def JobsReply.job (r : JobsReply) : JobKind → ShownJob
  | .hf => ⟨r.download.status, r.download.log⟩
  | .rebuild => ⟨r.rebuild.status, r.rebuild.log⟩

/-- `window._activeJob`, `lastLog`, and the text of the pane. -/
structure LogPane where
  active : Option JobKind
  lastLog : String
  shown : String
  deriving DecidableEq

/-- `log.join("\n")`. -/
def logText (log : List String) : String := String.intercalate "\n" log

namespace LogPane

/-- The pane of a new page. -/
def new : LogPane := ⟨none, "", ""⟩

/-- `showLog`. -/
def showLog (p : LogPane) (log : List String) : LogPane :=
  if logText log ≠ p.lastLog then
    { p with
      lastLog := logText log
      shown := if logText log = "" then "(no output yet)" else logText log }
  else p

/-- `renderJob`. -/
def renderJob (p : LogPane) (kind : JobKind) (job : ShownJob) : LogPane :=
  match job.status with
  | .idle => p
  | .running => { p with active := some kind }.showLog job.log
  | .ok | .failed =>
    if p.active = some kind then { p.showLog job.log with active := none } else p

/-- `render`, which goes through both jobs. -/
def poll (p : LogPane) (r : JobsReply) : LogPane :=
  (p.renderJob .hf (r.job .hf)).renderJob .rebuild (r.job .rebuild)

/-- The pane after some replies. -/
def after (rs : List JobsReply) : LogPane := rs.foldl poll new

end LogPane

/-- The job that the pane follows after a reply: a rebuild goes first. -/
def JobsReply.runs (r : JobsReply) : Option JobKind :=
  if (r.job .rebuild).status = .running then some .rebuild
  else if (r.job .hf).status = .running then some .hf
  else none

/-! ## What is shown -/

/-- The pane shows this log.  Where this is empty, the pane says so, unless nothing was shown
before. -/
structure LogPane.Shows (p : LogPane) (log : List String) : Prop where
  last : p.lastLog = logText log
  shown : p.shown = logText log ∨ logText log = "" ∧ p.shown = "(no output yet)"

namespace LogPane

/-- The pane shows what was assigned last. -/
def Sound (p : LogPane) : Prop :=
  p.shown = p.lastLog ∨ p.lastLog = "" ∧ p.shown = "(no output yet)"

variable {p : LogPane} {r : JobsReply} {k : JobKind}

theorem Shows.sound {log : List String} (h : p.Shows log) : p.Sound := by
  rw [Sound, h.last]
  exact h.shown

@[simp] theorem active_showLog (p : LogPane) (log : List String) :
    (p.showLog log).active = p.active := by
  unfold showLog
  split <;> rfl

/-- **The log that is shown.** -/
theorem shows_showLog (h : p.Sound) (log : List String) : (p.showLog log).Shows log := by
  unfold showLog
  split
  · refine ⟨rfl, ?_⟩
    by_cases hempty : logText log = ""
    · exact .inr ⟨hempty, if_pos hempty⟩
    · exact .inl (if_neg hempty)
  · next hsame =>
    have hlast : logText log = p.lastLog := not_not.mp hsame
    exact ⟨hlast.symm, hlast ▸ h⟩

/-- A job that is not followed and does not run is passed over. -/
theorem renderJob_of_ne {job : ShownJob} (hrun : job.status ≠ .running) (hne : p.active ≠ some k) :
    p.renderJob k job = p := by
  unfold renderJob
  split
  · rfl
  · next h => exact absurd h hrun
  · exact if_neg hne
  · exact if_neg hne

/-- A job that is over is shown once more. -/
theorem renderJob_of_over {job : ShownJob} (hrun : job.status ≠ .running)
    (hidle : job.status ≠ .idle) (hactive : p.active = some k) :
    p.renderJob k job = { p.showLog job.log with active := none } := by
  unfold renderJob
  split
  · next h => exact absurd h hidle
  · next h => exact absurd h hrun
  · exact if_pos hactive
  · exact if_pos hactive

theorem renderJob_of_idle {job : ShownJob} (h : job.status = .idle) : p.renderJob k job = p := by
  rw [renderJob, h]

theorem renderJob_of_running {job : ShownJob} (h : job.status = .running) :
    p.renderJob k job = { p with active := some k }.showLog job.log := by
  rw [renderJob, h]

theorem sound_renderJob (h : p.Sound) (k : JobKind) (job : ShownJob) :
    (p.renderJob k job).Sound := by
  unfold renderJob
  split
  · exact h
  · exact (shows_showLog (p := { p with active := some k }) h job.log).sound
  all_goals
    split
    · exact (shows_showLog h job.log).sound
    · exact h

theorem sound_poll (h : p.Sound) (r : JobsReply) : (p.poll r).Sound :=
  sound_renderJob (sound_renderJob h .hf _) .rebuild _

/-- No job runs. -/
theorem not_running_of_runs (h : r.runs = none) (k : JobKind) : (r.job k).status ≠ .running := by
  unfold JobsReply.runs at h
  split at h
  · exact absurd h (by simp)
  · next hrebuild =>
    split at h
    · exact absurd h (by simp)
    · next hhf => cases k <;> assumption

/-- **A reply in which a job runs.** -/
theorem poll_of_runs (hsound : p.Sound) (h : r.runs = some k) :
    (p.poll r).active = some k ∧ (p.poll r).Shows (r.job k).log := by
  have hhf := sound_renderJob hsound .hf (r.job .hf)
  unfold JobsReply.runs at h
  split at h
  · next hrebuild =>
    obtain rfl := Option.some.inj h
    rw [poll, renderJob_of_running hrebuild, active_showLog]
    exact ⟨rfl, shows_showLog (p := { p.renderJob .hf (r.job .hf) with active := some .rebuild })
      hhf _⟩
  · next hrebuild =>
    split at h
    · next hrun =>
      obtain rfl := Option.some.inj h
      have hactive : (p.renderJob .hf (r.job .hf)).active = some .hf := by
        rw [renderJob_of_running hrun, active_showLog]
      rw [poll, renderJob_of_ne hrebuild (by rw [hactive]; decide)]
      refine ⟨hactive, ?_⟩
      rw [renderJob_of_running hrun]
      exact shows_showLog (p := { p with active := some .hf }) hsound _
    · exact absurd h (by simp)

/-- A reply in which no job runs, while no job is followed. -/
theorem poll_of_none (h : r.runs = none) (hactive : p.active = none) : p.poll r = p := by
  have hne (k : JobKind) : p.active ≠ some k := by rw [hactive]; simp
  rw [poll, renderJob_of_ne (not_running_of_runs h .hf) (hne .hf),
    renderJob_of_ne (not_running_of_runs h .rebuild) (hne .rebuild)]

/-- A reply in which no job runs and the one that is followed is gone. -/
theorem poll_of_idle (h : r.runs = none) (hactive : p.active = some k)
    (hidle : (r.job k).status = .idle) : p.poll r = p := by
  have heach (j : JobKind) : p.renderJob j (r.job j) = p := by
    by_cases hj : j = k
    · subst hj
      exact renderJob_of_idle hidle
    · refine renderJob_of_ne (not_running_of_runs h j) fun heq => hj ?_
      exact (Option.some.inj (hactive.symm.trans heq)).symm
  rw [poll, heach .hf, heach .rebuild]

/-- **A reply in which the job that is followed is over.** -/
theorem poll_of_over (hsound : p.Sound) (h : r.runs = none) (hactive : p.active = some k)
    (hover : (r.job k).status ≠ .idle) :
    (p.poll r).active = none ∧ (p.poll r).Shows (r.job k).log := by
  have hshows : ({ p.showLog (r.job k).log with active := none } : LogPane).Shows (r.job k).log :=
    ⟨(shows_showLog hsound _).last, (shows_showLog hsound _).shown⟩
  have hpoll : p.poll r = { p.showLog (r.job k).log with active := none } := by
    cases k with
    | hf =>
      rw [poll, renderJob_of_over (not_running_of_runs h .hf) hover hactive]
      exact renderJob_of_ne (not_running_of_runs h .rebuild) (by simp)
    | rebuild =>
      rw [poll, renderJob_of_ne (not_running_of_runs h .hf) (by rw [hactive]; decide)]
      exact renderJob_of_over (not_running_of_runs h .rebuild) hover hactive
  rw [hpoll]
  exact ⟨rfl, hshows⟩

/-- Replies in which no job runs leave the pane, once no job is followed. -/
theorem foldl_of_none {rs : List JobsReply} (hactive : p.active = none)
    (h : ∀ r ∈ rs, r.runs = none) : rs.foldl poll p = p := by
  induction rs with
  | nil => rfl
  | cons r rs ih =>
    rw [List.foldl_cons, poll_of_none (h r List.mem_cons_self) hactive]
    exact ih fun s hs => h s (List.mem_cons_of_mem r hs)

/-- **The replies after the last one in which a job ran.** -/
theorem foldl_of_quiet {rs : List JobsReply} {log : List String} (hactive : p.active = some k)
    (hshows : p.Shows log) (h : ∀ r ∈ rs, r.runs = none) :
    (rs.foldl poll p).Shows
      (((rs.find? fun r => decide ((r.job k).status ≠ .idle)).map fun r => (r.job k).log).getD
        log) := by
  induction rs with
  | nil => exact hshows
  | cons r rs ih =>
    have hr := h r List.mem_cons_self
    have hrest : ∀ s ∈ rs, s.runs = none := fun s hs => h s (List.mem_cons_of_mem r hs)
    rw [List.foldl_cons]
    by_cases hidle : (r.job k).status = .idle
    · rw [poll_of_idle hr hactive hidle, List.find?_cons_of_neg (by simp [hidle])]
      exact ih hrest
    · obtain ⟨hnone, hover⟩ := poll_of_over hshows.sound hr hactive hidle
      rw [foldl_of_none hnone hrest, List.find?_cons_of_pos (by simp [hidle])]
      exact hover

theorem sound_foldl {rs : List JobsReply} (h : p.Sound) : (rs.foldl poll p).Sound := by
  induction rs generalizing p with
  | nil => exact h
  | cons r rs ih => exact ih (sound_poll h r)

end LogPane

/-! ## The script -/

section Script

variable {host : Host} {α β : Type}

/-- A piece of the script that returns this and leaves the page as it is. -/
def Keeps (p : PageM α) (a : α) : Prop := ∀ page, p.run.run page = (.ok a, page)

theorem Keeps.bind {p : PageM α} {a : α} (h : Keeps p a) (f : α → PageM β) (page : Page) :
    (p >>= f).run.run page = (f a).run.run page := by
  rw [run_bind, h page]

theorem keeps_bind {p : PageM α} {f : α → PageM β} {a : α} {b : β} (hp : Keeps p a)
    (hf : Keeps (f a) b) : Keeps (p >>= f) b := fun page => (hp.bind f page).trans (hf page)

theorem keeps_pure (a : α) : Keeps (pure a) a := fun _ => rfl

theorem keeps_lift {e : Except Thrown α} {a : α} (h : e = .ok a) : Keeps (liftM e) a := by
  subst h
  exact fun _ => rfl

theorem keeps_element {id : String} (h : id ∈ elementIds) : Keeps (element id) () := by
  rw [element, if_pos h]
  exact keeps_pure ()

/-- What the script meets of a job. -/
structure Reads (v : Js) (job : ShownJob) : Prop where
  truthy : v.truthy = true
  status : v.get "status" = .ok (Js.text (jobStatusText job.status))
  error : ∃ w, v.get "error" = .ok w ∧ Scalar w
  log : v.get "log" = .ok (.json (logJson job.log))

theorem reads_download (r : JobsReply) :
    Reads (.json (downloadJson r.download)) (r.job .hf) := by
  refine ⟨rfl, rfl, ⟨_, rfl, ?_⟩, rfl⟩
  exact scalar_orNull (fun _ => scalar_text) (fits_textOrNull r.download.error)

theorem reads_rebuild (r : JobsReply) :
    Reads (.json (rebuildJson r.rebuild)) (r.job .rebuild) := by
  refine ⟨rfl, rfl, ⟨_, rfl, ?_⟩, rfl⟩
  exact scalar_orNull (fun _ => scalar_text) (fits_textOrNull r.rebuild.error)

/-- The lines of a log are joined as they are. -/
theorem stringsOfItems_map_str (host : Host) (log : List String) :
    stringsOfItems host (log.map .str) = .ok log := by
  induction log with
  | nil => rfl
  | cons line log ih =>
    rw [List.map_cons, stringsOfItems_text, ih]
    rfl

theorem keeps_joinLog {v : Js} {job : ShownJob} (h : Reads v job) (left : ℕ → ℕ) :
    Keeps (joinLog host v left) () := by
  have hitems : ((Js.json (logJson job.log)).orElse (.json (.arr []))).items =
      .ok (job.log.map .str) := rfl
  have hdrop : (job.log.map Json.str).drop (left (job.log.map Json.str).length) =
      (job.log.drop (left (job.log.map Json.str).length)).map .str := List.map_drop.symm
  rw [joinLog]
  refine keeps_bind (keeps_lift h.log) (keeps_bind (keeps_lift hitems) ?_)
  refine keeps_bind (keeps_lift (a := job.log.drop (left (job.log.map Json.str).length)) ?_)
    (keeps_pure ())
  rw [hdrop, stringsOfItems_map_str]

theorem keeps_textOf {v : Js} (h : Scalar v) : Keeps (textOf host v) () := by
  obtain ⟨t, ht⟩ := h.string host
  exact keeps_bind (keeps_lift ht) (keeps_pure ())

theorem keeps_textIf {v : Js} (h : Scalar v) : Keeps (textIf host v) () := by
  rw [textIf]
  split
  · exact keeps_textOf h
  · exact keeps_pure ()

theorem keeps_showLog {v : Js} {job : ShownJob} (h : Reads v job) :
    Keeps (Panel.showLog host v) () :=
  keeps_bind (keeps_joinLog h _) (keeps_element (by decide))

/-- What the script does at a job that is over. -/
theorem run_over {v : Js} {job : ShownJob} (h : Reads v job) (hrun : job.status ≠ .running)
    (hidle : job.status ≠ .idle) (kind : JobKind) (p : LogPane) (page : Page)
    (hpage : page.activeJob = p.active.map JobKind.name) :
    ((do
      if (← getThe Page).activeJob = some kind.name then
        Panel.showLog host v
        modify fun page => { page with activeJob := none } : PageM Unit)).run.run page =
      (.ok (), { page with activeJob := (p.renderJob kind job).active.map JobKind.name }) := by
  have hsame : { page with activeJob := p.active.map JobKind.name } = page := by rw [← hpage]
  show (if page.activeJob = some kind.name then
    (Panel.showLog host v >>= fun _ => modify fun page => { page with activeJob := none } :
      PageM Unit) else pure ()).run.run page = _
  by_cases hactive : p.active = some kind
  · rw [if_pos (by rw [hpage, hactive]; rfl), (keeps_showLog h).bind,
      LogPane.renderJob_of_over hrun hidle hactive]
    rfl
  · have hne : page.activeJob ≠ some kind.name := by
      rw [hpage]
      intro heq
      obtain ⟨k, hk, hname⟩ := Option.map_eq_some_iff.mp heq
      have hkind : k = kind := by revert hname; cases k <;> cases kind <;> decide
      exact hactive (hkind ▸ hk)
    rw [if_neg hne, LogPane.renderJob_of_ne hrun hactive, hsame]
    rfl

/-- **The pane and the script agree** on the job that is followed. -/
theorem run_renderJob {v : Js} {job : ShownJob} (h : Reads v job) (kind : JobKind) (p : LogPane)
    (page : Page) (hpage : page.activeJob = p.active.map JobKind.name) :
    (Panel.renderJob host kind.name v).run.run page =
      (.ok (), { page with activeJob := (p.renderJob kind job).active.map JobKind.name }) := by
  have hname : kind.name ++ "-job" ∈ elementIds := by cases kind <;> decide
  obtain ⟨e, herror, hscalar⟩ := h.error
  have hstatus : Scalar (Js.text (jobStatusText job.status)) := trivial
  have hsame : { page with activeJob := p.active.map JobKind.name } = page := by rw [← hpage]
  -- Past the texts of the job.
  have hlines (rest : PageM Unit) :
      (joinLog host v (fun n => n - 8) >>= fun _ =>
        textOf host (Js.text (jobStatusText job.status)) >>= fun _ =>
          (liftM (v.get "error") : PageM Js) >>= fun w => textIf host w >>= fun _ =>
            rest).run.run page = rest.run.run page := by
    rw [(keeps_joinLog h _).bind, (keeps_textOf hstatus).bind, (keeps_lift herror).bind,
      (keeps_textIf hscalar).bind]
  rw [Panel.renderJob, (keeps_element hname).bind, if_pos h.truthy, (keeps_lift h.status).bind]
  cases hjob : job.status with
  | idle =>
    rw [LogPane.renderJob_of_idle hjob, hsame]
    rfl
  | running =>
    rw [hjob] at hlines
    rw [if_neg (by decide)]
    refine (hlines _).trans ?_
    rw [if_pos (by decide), LogPane.renderJob_of_running hjob, LogPane.active_showLog]
    exact keeps_showLog h { page with activeJob := some kind.name }
  | ok | failed =>
    rw [hjob] at hlines
    rw [if_neg (by decide)]
    refine (hlines _).trans ?_
    rw [if_neg (by decide)]
    exact run_over h (by simp [hjob]) (by simp [hjob]) kind p page hpage

end Script

/-- The lines of `render` for the jobs of a status reply. -/
def renderJobs (host : Host) (r : JobsReply) : PageM Unit := do
  Panel.renderJob host "hf" (.json (downloadJson r.download))
  Panel.renderJob host "rebuild" (.json (rebuildJson r.rebuild))

/-- The page after some replies. -/
def pageAfter (host : Host) (rs : List JobsReply) : Page :=
  rs.foldl (fun page r => ((renderJobs host r).run.run page).2) ⟨[], none⟩

/-- **The script at both jobs.** -/
theorem run_renderJobs (host : Host) (r : JobsReply) (p : LogPane) (page : Page)
    (hpage : page.activeJob = p.active.map JobKind.name) :
    (renderJobs host r).run.run page =
      (.ok (), { page with activeJob := (p.poll r).active.map JobKind.name }) := by
  let page' : Page :=
    { page with activeJob := (p.renderJob .hf (r.job .hf)).active.map JobKind.name }
  have hhf : (Panel.renderJob host "hf" (.json (downloadJson r.download))).run.run page =
      (.ok (), page') := run_renderJob (reads_download r) .hf p page hpage
  rw [renderJobs, run_bind, hhf]
  exact run_renderJob (reads_rebuild r) .rebuild (p.renderJob .hf (r.job .hf)) page' rfl

/-- **The script follows the job that the pane follows**, after any replies. -/
theorem activeJob_pageAfter (host : Host) (rs : List JobsReply) :
    (pageAfter host rs).activeJob = (LogPane.after rs).active.map JobKind.name := by
  have hkept (p : LogPane) (page : Page) (hpage : page.activeJob = p.active.map JobKind.name) :
      (rs.foldl (fun page r => ((renderJobs host r).run.run page).2) page).activeJob =
        (rs.foldl LogPane.poll p).active.map JobKind.name := by
    induction rs generalizing p page with
    | nil => exact hpage
    | cons r rs ih =>
      rw [List.foldl_cons, List.foldl_cons, run_renderJobs host r p page hpage]
      exact ih (p.poll r) _ rfl
  exact hkept .new ⟨[], none⟩ rfl

/-! ## After any replies -/

/-- **The pane follows the jobs**, after any sequence of status replies.  Let the last reply in
which a job ran be followed by any others: the pane shows the log of that job, of a rebuild before
a download, as it is in the first later reply in which the job is over, or else in this one.  It
shows nothing if no job ran in any reply.  The script follows the job that the pane does. -/
theorem log_pane_follows (host : Host) (rs : List JobsReply) :
    (∀ before r later k, rs = before ++ r :: later → r.runs = some k →
      (∀ s ∈ later, s.runs = none) →
      (LogPane.after rs).Shows
        (((later.find? fun s => decide ((s.job k).status ≠ .idle)).getD r).job k).log) ∧
    ((∀ s ∈ rs, s.runs = none) → LogPane.after rs = .new) ∧
    (pageAfter host rs).activeJob = (LogPane.after rs).active.map JobKind.name := by
  have hnew : LogPane.new.Sound := .inl rfl
  refine ⟨?_, ?_, activeJob_pageAfter host rs⟩
  · rintro before r later k rfl hrun hquiet
    have hbefore : (before.foldl LogPane.poll .new).Sound := LogPane.sound_foldl hnew
    obtain ⟨hactive, hshows⟩ := LogPane.poll_of_runs hbefore hrun
    have hlater := LogPane.foldl_of_quiet hactive hshows hquiet
    rw [LogPane.after, List.foldl_append, List.foldl_cons]
    rwa [Option.getD_map (fun s : JobsReply => (s.job k).log)] at hlater
  · exact fun hquiet => LogPane.foldl_of_none rfl hquiet

/-- A reply with a rebuild. -/
def rebuildReply (status : JobStatus) (log : List String) : JobsReply :=
  ⟨.idle, { RebuildJob.idle with status := status, log := log }⟩

/-- A rebuild has failed between two replies, and a download has ended later. -/
theorem log_pane_follows_failed :
    (LogPane.after [rebuildReply .running ["a"], rebuildReply .failed ["a", "b"],
      { rebuildReply .idle [] with download := { DownloadJob.idle with status := .ok } }]).Shows
        ["a", "b"] := by
  refine (log_pane_follows londonHost _).1 [] (rebuildReply .running ["a"]) _ .rebuild rfl
    (by decide) ?_
  decide

end Panel

end LlmCtl
