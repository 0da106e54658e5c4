import FwLoader.Foundations.Triples
import FwLoader.Main.Loop
import FwLoader.Upload.Monitor

/-!
# The polls of the main loop

The monitor of uploads takes a poll as one step. In the program a poll is two calls, and the
callbacks of the Bluetooth stack and of the management server can run before, between and behind
them. A poll still comes to what one step does: of the callbacks that run between the two calls, the
commands can be taken to run before the poll and the changes of the connection behind it, since they
do not touch the same variables.
-/

namespace FwLoader.Main

open Foundations Mgmt Upload

/-! ## The shared variables -/

/-- The variables that the callbacks share with the main loop. -/
structure Shared where
  gUploadCnt : UInt32
  gLastUploadCnt : UInt32
  gBtIsConnected : Bool
deriving DecidableEq

namespace Shared

/-- The state of the monitor. -/
def monitor (v : Shared) (uploadingTimeoutCnt : UInt32) : Monitor :=
  ⟨v.gUploadCnt, v.gLastUploadCnt, uploadingTimeoutCnt, v.gBtIsConnected, false⟩

/-- What a callback does. -/
def handle (ids : MgmtIds) (v : Shared) (e : Upload.Event) : Shared :=
  let m := (v.monitor 0).handle ids 0 e
  ⟨m.gUploadCnt, m.gLastUploadCnt, m.gBtIsConnected⟩

/-- `fwloader_mcumgr_mgmt_callbacks_is_uploading_in_progress` -/
def isUploadingInProgress (v : Shared) : Bool × Shared :=
  let (isUploading, gLastUploadCnt) := Mgmt.isUploadingInProgress v.gUploadCnt v.gLastUploadCnt
  (isUploading, { v with gLastUploadCnt := gLastUploadCnt })

end Shared

/-! ## What happens -/

/-- A call of main with its answer, or a callback. -/
abbrev Happening := Foundations.Event mainApi ⊕ Upload.Event

/-- Whether the callback is `mgmt_cb_cmd_recv`. -/
def isCmdRecv : Upload.Event → Bool
  | .cmdRecv _ _ _ => true
  | _ => false

/-- Whether the callback is `connected` or `disconnected`. -/
def isConnChange : Upload.Event → Bool
  | .connected _ | .disconnected _ => true
  | _ => false

/-- The callbacks of the connection, and the polls where they read it. -/
def connView : Happening → Option Upload.Event
  | .inl ⟨.btIsConnected, _⟩ => some .poll
  | .inl _ => none
  | .inr e => if isCmdRecv e then none else some e

/-- The commands, and the polls where they compare the counters or find that they need not. -/
def cmdView : Happening → Option Upload.Event
  | .inl ⟨.btIsConnected, isConnected⟩ => if isConnected = true then none else some .poll
  | .inl ⟨.isUploadingInProgress, _⟩ => some .poll
  | .inl _ => none
  | .inr e => if isConnChange e then none else some e

/-- The events are what has happened, as it is seen from the connection and from the counters, but
for the callbacks of both that come behind the last poll. -/
structure Tells (hist : List Happening) (es conns cmds : List Upload.Event) : Prop where
  conn : hist.filterMap connView = es.filter (!isCmdRecv ·) ++ conns
  cmd : hist.filterMap cmdView = es.filter (!isConnChange ·) ++ cmds
  conn_poll : .poll ∉ conns
  cmd_poll : .poll ∉ cmds

/-- The events are all that has happened. -/
abbrev TellsAll (hist : List Happening) (es : List Upload.Event) : Prop := Tells hist es [] []

/-- Some callbacks run, and it is written down that they do. -/
def Callbacks (ids : MgmtIds) (v : Shared) (hist : List Happening) (v' : Shared)
    (hist' : List Happening) : Prop :=
  ∃ es : List Upload.Event, (∀ e ∈ es, e ≠ .poll) ∧ v' = es.foldl (Shared.handle ids) v ∧
    hist' = hist ++ es.map .inr

/-- An environment of the main loop: it answers from the shared variables, behind each call
callbacks may run, and what has happened is written down. -/
structure Shares {σ : Type} (ids : MgmtIds) (H : Handler mainApi σ) (shared : σ → Shared)
    (happened : σ → List Happening) : Prop where
  isConnected : ∀ s, H.answer s .btIsConnected = (shared s).gBtIsConnected
  isUploading : ∀ s, H.answer s .isUploadingInProgress = (shared s).isUploadingInProgress.1
  next_isUploading : ∀ s, Callbacks ids (shared s).isUploadingInProgress.2
    (happened s ++ [.inl ⟨.isUploadingInProgress, H.answer s .isUploadingInProgress⟩])
    (shared (H.next s .isUploadingInProgress)) (happened (H.next s .isUploadingInProgress))
  next : ∀ s c, c ≠ .isUploadingInProgress → Callbacks ids (shared s)
    (happened s ++ [.inl ⟨c, H.answer s c⟩]) (shared (H.next s c)) (happened (H.next s c))

section

variable {ids : MgmtIds} {T : UInt32} {v v' : Shared} {e : Upload.Event} {es : List Upload.Event}
  {hist hist' : List Happening}

theorem Tells.append {es' conns cmds : List Upload.Event} (h : TellsAll hist es)
    (h' : Tells hist' es' conns cmds) : Tells (hist ++ hist') (es ++ es') conns cmds where
  conn := by rw [List.filterMap_append, h.conn, h'.conn, List.filter_append, List.append_nil,
    List.append_assoc]
  cmd := by rw [List.filterMap_append, h.cmd, h'.cmd, List.filter_append, List.append_nil,
    List.append_assoc]
  conn_poll := h'.conn_poll
  cmd_poll := h'.cmd_poll

theorem filterMap_connView_inr (es : List Upload.Event) :
    (es.map Sum.inr : List Happening).filterMap connView = es.filter (!isCmdRecv ·) := by
  induction es with
  | nil => rfl
  | cons e es ih => cases he : isCmdRecv e <;> simp [connView, he, ← ih]

theorem filterMap_cmdView_inr (es : List Upload.Event) :
    (es.map Sum.inr : List Happening).filterMap cmdView = es.filter (!isConnChange ·) := by
  induction es with
  | nil => rfl
  | cons e es ih => cases he : isConnChange e <;> simp [cmdView, he, ← ih]

theorem tellsAll_callbacks (es : List Upload.Event) : TellsAll (es.map .inr) es where
  conn := by rw [filterMap_connView_inr, List.append_nil]
  cmd := by rw [filterMap_cmdView_inr, List.append_nil]
  conn_poll := List.not_mem_nil
  cmd_poll := List.not_mem_nil

/-! ## Callbacks -/

theorem handle_connected (v : Shared) (err : UInt8) :
    v.handle ids (.connected err) = if err ≠ 0 then v else { v with gBtIsConnected := true } := by
  simp only [Shared.handle, Shared.monitor, Monitor.handle, Monitor.connected]
  split <;> rfl

/-- A callback is a step of the monitor that lets the time-out be. -/
theorem step_of_callback (he : e ≠ .poll) (cnt : UInt32) :
    (Upload.monitor ids T).step (v.monitor cnt) e = some ((v.handle ids e).monitor cnt) := by
  have hstep : (Upload.monitor ids T).step (v.monitor cnt) e =
      some ((v.monitor cnt).handle ids T e) := rfl
  rw [hstep]
  cases e with
  | poll => exact absurd rfl he
  | connected err =>
    rw [handle_connected]
    simp only [Monitor.handle, Monitor.connected]
    split <;> rfl
  | disconnected reason => rfl
  | cmdRecv event data dataSize => rfl

variable (ids T) in
theorem run_of_callbacks (hes : ∀ e ∈ es, e ≠ .poll) (v : Shared) (cnt : UInt32) :
    (Upload.monitor ids T).Run System.Any (v.monitor cnt) es
      ((es.foldl (Shared.handle ids) v).monitor cnt) := by
  induction es generalizing v with
  | nil => exact .nil
  | cons e es ih =>
    obtain ⟨he, htail⟩ := List.forall_mem_cons.mp hes
    have hfirst : (Upload.monitor ids T).Run System.Any (v.monitor cnt) [e]
        ((v.handle ids e).monitor cnt) := System.Run.nil.snoc trivial (step_of_callback he cnt)
    exact hfirst.append (ih htail (v.handle ids e))

variable (ids) in
/-- Commands do not touch the connection. -/
theorem handle_of_isCmdRecv (he : isCmdRecv e = true) :
    ∃ f : UInt32 → UInt32, ∀ v : Shared,
      v.handle ids e = { v with gUploadCnt := f v.gUploadCnt } := by
  cases e with
  | cmdRecv event data dataSize =>
    exact ⟨fun cnt => Mgmt.mgmtCbCmdRecv ids cnt event data dataSize, fun _ => rfl⟩
  | connected _ | disconnected _ | poll => exact nomatch he

variable (ids) in
/-- The other callbacks do not touch the counters. -/
theorem handle_of_not_isCmdRecv (hpoll : e ≠ .poll) (he : isCmdRecv e = false) :
    ∃ f : Bool → Bool, ∀ v : Shared,
      v.handle ids e = { v with gBtIsConnected := f v.gBtIsConnected } := by
  cases e with
  | cmdRecv event data dataSize => exact nomatch he
  | poll => exact absurd rfl hpoll
  | disconnected reason => exact ⟨fun _ => false, fun _ => rfl⟩
  | connected err =>
    refine ⟨fun b => if err ≠ 0 then b else true, fun v => ?_⟩
    rw [handle_connected]
    split <;> rfl

variable (ids) in
/-- So that they can be taken apart. -/
theorem foldl_filter_isCmdRecv (hes : ∀ e ∈ es, e ≠ .poll) (v : Shared) :
    let v' := es.foldl (Shared.handle ids) v
    v'.gLastUploadCnt = v.gLastUploadCnt ∧
      (∀ b, (es.filter isCmdRecv).foldl (Shared.handle ids) { v with gBtIsConnected := b } =
        { v' with gBtIsConnected := b }) ∧
      ∀ cnt last, (es.filter fun e => !isCmdRecv e).foldl (Shared.handle ids)
        ⟨cnt, last, v.gBtIsConnected⟩ = ⟨cnt, last, v'.gBtIsConnected⟩ := by
  induction es generalizing v with
  | nil => exact ⟨rfl, fun _ => rfl, fun _ _ => rfl⟩
  | cons e es ih =>
    obtain ⟨hpoll, htail⟩ := List.forall_mem_cons.mp hes
    obtain ⟨hlast, hcmds, hconns⟩ := ih htail (v.handle ids e)
    cases he : isCmdRecv e with
    | true =>
      obtain ⟨f, hf⟩ := handle_of_isCmdRecv ids he
      simp only [List.filter_cons, List.foldl_cons, he, hf, if_true] at hlast hcmds hconns ⊢
      exact ⟨hlast, hcmds, hconns⟩
    | false =>
      obtain ⟨f, hf⟩ := handle_of_not_isCmdRecv ids hpoll he
      simp only [List.filter_cons, List.foldl_cons, he, hf, Bool.not_false, if_true]
        at hlast hcmds hconns ⊢
      exact ⟨hlast, hcmds, hconns⟩

/-- A callback is a command or a change of the connection. -/
theorem filter_not_isConnChange (hes : ∀ e ∈ es, e ≠ .poll) :
    es.filter (!isConnChange ·) = es.filter isCmdRecv := by
  refine List.filter_congr fun e he => ?_
  cases e with
  | poll => exact absurd rfl (hes _ he)
  | connected _ | disconnected _ | cmdRecv _ _ _ => rfl

/-! ## A poll is one step -/

/-- While this happens, the monitor gets from one state to another in so many polls. -/
def Polls (ids : MgmtIds) (T : UInt32) (m : Monitor) (n : ℕ) (hist : List Happening)
    (m' : Monitor) : Prop :=
  ∃ es, (Upload.monitor ids T).Run System.Any m es m' ∧ es.count .poll = n ∧ TellsAll hist es

/-- While this happens, the monitor reboots the device. -/
def Reboots (ids : MgmtIds) (T : UInt32) (m : Monitor) (hist : List Happening) : Prop :=
  ∃ es m' conns cmds, (Upload.monitor ids T).Run System.Any m es m' ∧ m'.rebooted = true ∧
    Tells hist es conns cmds

variable {m m' : Monitor} {n cnt : UInt32}

theorem Polls.refl (m : Monitor) : Polls ids T m 0 [] m :=
  ⟨[], .nil, rfl, rfl, rfl, List.not_mem_nil, List.not_mem_nil⟩

theorem Polls.trans {i j : ℕ} {m'' : Monitor} (h : Polls ids T m i hist m')
    (h' : Polls ids T m' j hist' m'') : Polls ids T m (i + j) (hist ++ hist') m'' := by
  obtain ⟨es, hrun, rfl, htells⟩ := h
  obtain ⟨es', hrun', rfl, htells'⟩ := h'
  exact ⟨es ++ es', hrun.append hrun', List.count_append, htells.append htells'⟩

theorem Polls.reboots {i : ℕ} (h : Polls ids T m i hist m') (h' : Reboots ids T m' hist') :
    Reboots ids T m (hist ++ hist') := by
  obtain ⟨es, hrun, -, htells⟩ := h
  obtain ⟨es', m'', conns, cmds, hrun', hrebooted, htells'⟩ := h'
  exact ⟨es ++ es', m'', conns, cmds, hrun.append hrun', hrebooted, htells.append htells'⟩

/-- The callbacks behind the last poll are left over. -/
theorem Reboots.callbacks (h : Reboots ids T m hist) (hes : ∀ e ∈ es, e ≠ .poll) :
    Reboots ids T m (hist ++ es.map .inr) := by
  obtain ⟨es', m', conns, cmds, hrun, hrebooted, htells⟩ := h
  refine ⟨es', m', conns ++ es.filter (!isCmdRecv ·), cmds ++ es.filter (!isConnChange ·), hrun,
    hrebooted, ?_, ?_, ?_, ?_⟩
  · rw [List.filterMap_append, htells.conn, filterMap_connView_inr, List.append_assoc]
  · rw [List.filterMap_append, htells.cmd, filterMap_cmdView_inr, List.append_assoc]
  · rw [List.mem_append]
    exact fun h => h.elim htells.conn_poll fun h => hes _ (List.mem_of_mem_filter h) rfl
  · rw [List.mem_append]
    exact fun h => h.elim htells.cmd_poll fun h => hes _ (List.mem_of_mem_filter h) rfl

variable (ids T) in
/-- Callbacks let the time-out be. -/
theorem polls_of_callbacks (hes : ∀ e ∈ es, e ≠ .poll) (v : Shared) (cnt : UInt32) :
    Polls ids T (v.monitor cnt) 0 (es.map .inr)
      ((es.foldl (Shared.handle ids) v).monitor cnt) :=
  ⟨es, run_of_callbacks ids T hes v cnt, List.count_eq_zero_of_not_mem fun h => hes _ h rfl,
    tellsAll_callbacks es⟩

/-- `uploading_timeout_cnt` after a poll -/
def cntAfter (noticed : Bool) (cnt : UInt32) : UInt32 := if noticed then 0 else cnt + 1

/-- The monitor behind a poll. -/
def Shared.polled (v : Shared) (T cnt : UInt32) : Monitor :=
  { v.monitor cnt with rebooted := decide (T ≤ cnt) }

theorem polled_of_not_le (h : ¬T ≤ cnt) : v.polled T cnt = v.monitor cnt := by
  rw [Shared.polled, decide_eq_false h]
  rfl

/-- The test of the time-out at the end of a poll. -/
theorem expire_eq (v : Shared) (cnt : UInt32) :
    (if (v.monitor cnt).uploadingTimeoutCnt ≥ T then { v.monitor cnt with rebooted := true }
      else v.monitor cnt) = v.polled T cnt := by
  by_cases hexpired : T ≤ cnt
  · rw [Shared.polled, decide_eq_true hexpired]
    exact if_pos hexpired
  · rw [polled_of_not_le hexpired]
    exact if_neg hexpired

/-- A poll that finds no client. -/
theorem mainLoopBody_of_not_connected (hconn : v.gBtIsConnected = false) (cnt : UInt32) :
    (v.monitor cnt).mainLoopBody T = v.polled T (cntAfter false cnt) := by
  obtain ⟨up, last, conn⟩ := v
  obtain rfl : conn = false := hconn
  exact expire_eq ⟨up, last, false⟩ (cnt + 1)

/-- A poll that finds a client. -/
theorem mainLoopBody_of_connected (hconn : v.gBtIsConnected = true) (cnt : UInt32) :
    (v.monitor cnt).mainLoopBody T =
      v.isUploadingInProgress.2.polled T (cntAfter v.isUploadingInProgress.1 cnt) := by
  obtain ⟨up, last, conn⟩ := v
  obtain rfl : conn = true := hconn
  rw [← expire_eq]
  by_cases hup : up = last
  · simp [Shared.monitor, Shared.isUploadingInProgress, Monitor.mainLoopBody,
      Monitor.isUploadingInProgress, Mgmt.isUploadingInProgress, cntAfter, hup]
  · simp [Shared.monitor, Shared.isUploadingInProgress, Monitor.mainLoopBody,
      Monitor.isUploadingInProgress, Mgmt.isUploadingInProgress, cntAfter, hup]

variable (ids T) in
theorem run_poll (v : Shared) (cnt : UInt32) :
    (Upload.monitor ids T).Run System.Any (v.monitor cnt) [.poll]
      ((v.monitor cnt).mainLoopBody T) := System.Run.nil.snoc trivial rfl

variable (ids T) in
/-- A poll that finds no client is made where the connection is read. -/
theorem polls_of_not_connected (hconn : v.gBtIsConnected = false) (cnt : UInt32) :
    let cnt' := cntAfter false cnt
    let hist : List Happening := [.inl ⟨.btIsConnected, false⟩]
    (T ≤ cnt' → Reboots ids T (v.monitor cnt) hist) ∧
      (¬T ≤ cnt' → Polls ids T (v.monitor cnt) 1 hist (v.monitor cnt')) := by
  intro cnt' hist
  have hrun := run_poll ids T v cnt
  have htells : TellsAll hist [.poll] := ⟨rfl, rfl, List.not_mem_nil, List.not_mem_nil⟩
  rw [mainLoopBody_of_not_connected hconn] at hrun
  refine ⟨fun hexpired => ⟨_, _, [], [], hrun, decide_eq_true hexpired, htells⟩, fun h => ?_⟩
  rw [polled_of_not_le h] at hrun
  exact ⟨[.poll], hrun, rfl, htells⟩

variable (ids T) in
/-- Callbacks between the two calls of a poll can be taken to run before it and behind it: before it
the commands, and behind it the changes of the connection. -/
theorem polls_of_connected (hconn : v.gBtIsConnected = true) (hes : ∀ e ∈ es, e ≠ .poll)
    (isUploading : Bool) (cnt : UInt32) :
    let v' := es.foldl (Shared.handle ids) v
    let cnt' := cntAfter v'.isUploadingInProgress.1 cnt
    let hist : List Happening := [.inl ⟨.btIsConnected, true⟩] ++ es.map .inr ++
      [.inl ⟨.isUploadingInProgress, isUploading⟩]
    (T ≤ cnt' → Reboots ids T (v.monitor cnt) hist) ∧
      (¬T ≤ cnt' → Polls ids T (v.monitor cnt) 1 hist
        (v'.isUploadingInProgress.2.monitor cnt')) := by
  intro v' cnt' hist
  obtain ⟨-, hcmds, hconns⟩ := foldl_filter_isCmdRecv ids hes v
  have hcmd (e : Upload.Event) (he : e ∈ es.filter isCmdRecv) : e ≠ .poll :=
    hes e (List.mem_of_mem_filter he)
  have hnotCmd (e : Upload.Event) (he : e ∈ es.filter (!isCmdRecv ·)) : e ≠ .poll :=
    hes e (List.mem_of_mem_filter he)
  -- the poll is made where the connection is read for the one, where the counters are for the other
  have hconnView : hist.filterMap connView = [.poll] ++ es.filter (!isCmdRecv ·) := by
    rw [List.filterMap_append, List.filterMap_append, filterMap_connView_inr]
    exact List.append_nil _
  have hcmdView : hist.filterMap cmdView = es.filter isCmdRecv ++ [.poll] := by
    rw [List.filterMap_append, List.filterMap_append, filterMap_cmdView_inr,
      filter_not_isConnChange hes]
    rfl
  have hconns' : (es.filter isCmdRecv ++ [Upload.Event.poll]).filter (!isCmdRecv ·) =
      [.poll] := by
    rw [List.filter_append, List.filter_filter]
    simp only [Bool.not_and_self, List.filter_false, List.nil_append]
    rfl
  have hcmds' : (es.filter isCmdRecv ++ [Upload.Event.poll]).filter (!isConnChange ·) =
      es.filter isCmdRecv ++ [.poll] := by
    rw [List.filter_append, filter_not_isConnChange hcmd, List.filter_filter]
    simp only [Bool.and_self]
    rfl
  have hrun : (Upload.monitor ids T).Run System.Any (v.monitor cnt)
      (es.filter isCmdRecv ++ [.poll])
      (Shared.polled ⟨v'.gUploadCnt, v'.gUploadCnt, true⟩ T cnt') := by
    -- the client is still connected
    have hbefore := run_of_callbacks ids T hcmd v cnt
    have hv : v = { v with gBtIsConnected := true } := by rw [← hconn]
    rw [hv, hcmds true] at hbefore
    have h := hbefore.append (run_poll ids T _ cnt)
    rw [← hv, mainLoopBody_of_connected rfl] at h
    exact h
  refine ⟨fun hexpired => ?_, fun hrunning => ?_⟩
  · refine ⟨_, _, es.filter (!isCmdRecv ·), [], hrun, decide_eq_true hexpired, ?_, ?_, ?_, ?_⟩
    · rw [hconnView, hconns']
    · rw [hcmdView, hcmds', List.append_nil]
    · exact fun h => hnotCmd _ h rfl
    · exact List.not_mem_nil
  · rw [polled_of_not_le hrunning] at hrun
    have hafter := run_of_callbacks ids T hnotCmd ⟨v'.gUploadCnt, v'.gUploadCnt, v.gBtIsConnected⟩
      cnt'
    rw [hconns, hconn] at hafter
    refine ⟨_, hrun.append hafter, ?_, ?_, ?_, List.not_mem_nil, List.not_mem_nil⟩
    · rw [List.count_append, List.count_append, List.count_eq_zero_of_not_mem fun h => hcmd _ h rfl,
        List.count_eq_zero_of_not_mem fun h => hnotCmd _ h rfl]
      rfl
    · rw [hconnView, List.filter_append, hconns', List.filter_filter, List.append_nil]
      simp
    · rw [hcmdView, List.filter_append, hcmds', filter_not_isConnChange hnotCmd,
        List.filter_filter]
      simp

/-! ## The main loop -/

section

variable {σ : Type} {H : Handler mainApi σ} {shared : σ → Shared} {happened : σ → List Happening}
  {s₀ : σ} {i : ℕ}

/-- A call belongs to a poll. -/
def isPolling : MainCall → Bool
  | .btIsConnected | .isUploadingInProgress => true
  | _ => false

variable (ids T shared happened) in
/-- With what has happened since, the monitor has come here in so many polls. -/
def PolledSince (s₀ : σ) (i : ℕ) (cnt : UInt32) (s : σ) : Prop :=
  ∃ hist, happened s = happened s₀ ++ hist ∧
    Polls ids T ((shared s₀).monitor 0) i hist ((shared s).monitor cnt)

variable (ids T shared happened) in
/-- With what has happened since, the monitor has rebooted the device. -/
def RebootedSince (s₀ s : σ) : Prop :=
  ∃ hist, happened s = happened s₀ ++ hist ∧ Reboots ids T ((shared s₀).monitor 0) hist

/-- Nothing is polled by the other calls. -/
theorem tellsAll_call {c : MainCall} (hc : isPolling c = false) (r : mainApi.Answer c) :
    TellsAll [.inl ⟨c, r⟩] [] := by
  refine ⟨?_, ?_, List.not_mem_nil, List.not_mem_nil⟩ <;> cases c <;>
    first | rfl | exact nomatch hc

theorem PolledSince.call (hH : Shares ids H shared happened) {c : MainCall}
    (hc : isPolling c = false) {s : σ} (h : PolledSince ids T shared happened s₀ i cnt s) :
    PolledSince ids T shared happened s₀ i cnt (H.next s c) := by
  obtain ⟨hist, hs, hpolls⟩ := h
  have hne : c ≠ .isUploadingInProgress := by
    rintro rfl
    exact nomatch hc
  obtain ⟨es, hes, hshared, hhappened⟩ := hH.next s c hne
  have hcall : Polls ids T ((shared s).monitor cnt) 0 [.inl ⟨c, H.answer s c⟩]
      ((shared s).monitor cnt) := ⟨[], .nil, rfl, tellsAll_call hc _⟩
  have hcallbacks := polls_of_callbacks ids T hes (shared s) cnt
  rw [← hshared] at hcallbacks
  refine ⟨hist ++ ([.inl ⟨c, H.answer s c⟩] ++ es.map .inr), ?_,
    hpolls.trans (hcall.trans hcallbacks)⟩
  rw [hhappened, hs, List.append_assoc, List.append_assoc]

/-- A program that makes no call of a poll. -/
theorem polledSince_of_onlyCalls (hH : Shares ids H shared happened) {α : Type}
    {p : Prog mainApi α} (hp : p.OnlyCalls fun c => isPolling c = false) (T : UInt32) (s₀ : σ)
    (i : ℕ) (cnt : UInt32) :
    Prog.Triple H (PolledSince ids T shared happened s₀ i cnt) p
      fun _ => PolledSince ids T shared happened s₀ i cnt := by
  induction p with
  | ret a => exact fun s hs => hs
  | call c k ih => exact fun s hs => ih _ (hp.2 _) _ (hs.call hH hp.1)

theorem feedUnlessPressed_onlyCalls :
    feedUnlessPressed.OnlyCalls fun c => isPolling c = false :=
  Prog.onlyCalls_perform_bind rfl fun _ =>
    Prog.onlyCalls_ite (fun _ => ⟨rfl, fun _ => trivial⟩) fun _ => trivial

theorem isPolling_of_isDriver {c : MainCall} (hc : c.isDriver = true) : isPolling c = false := by
  cases c with
  | isUploadingInProgress | btIsConnected => exact nomatch hc
  | _ => rfl

theorem blinkRgbLed_onlyCalls : blinkRgbLed.OnlyCalls fun c => isPolling c = false := by
  have hdrivers {α : Type} {p : Prog mainApi α} (hp : OnlyDrivers p) :
      p.OnlyCalls fun c => isPolling c = false := hp.mono fun _ => isPolling_of_isDriver
  have hset (pwms : RgbLedPwms) :=
    hdrivers (fwloaderRgbLedSetRawCurrentsAndPwms_onlyDrivers rgbLedCurrents pwms)
  refine Prog.onlyCalls_perform_bind rfl fun _ => Prog.onlyCalls_ite (fun _ => ?_) fun _ => ?_
  · exact (hdrivers fwloaderRgbLedCheckAndReinitIfNeeded_onlyDrivers).bind fun _ =>
      (hset _).bind fun _ => Prog.onlyCalls_perform_bind rfl fun _ =>
        (hset _).bind fun _ => ⟨rfl, fun _ => trivial⟩
  · exact ⟨rfl, fun _ => trivial⟩

theorem run_pollUploads (hH : Shares ids H shared happened) (cnt : UInt32) (s : σ) :
    let s₁ := H.next s .btIsConnected
    (pollUploads cnt).run H s =
      if (shared s).gBtIsConnected then
        (cntAfter (shared s₁).isUploadingInProgress.1 cnt, H.next s₁ .isUploadingInProgress)
      else (cntAfter false cnt, s₁) := by
  intro s₁
  have hperform (c : MainCall) (s : σ) :
      (@Prog.perform mainApi c).run H s = (H.answer s c, H.next s c) := Prog.run_perform H s c
  simp only [pollUploads, Prog.run_bind, Prog.run_ite, Prog.run_pure, hperform, hH.isConnected,
    hH.isUploading]
  split
  · unfold cntAfter
    split <;> rfl
  · rfl

/-- The two calls of a poll, with the callbacks between and behind them, are one step. -/
theorem polls_pollUploads (hH : Shares ids H shared happened) (T cnt : UInt32) (s : σ) :
    let res := (pollUploads cnt).run H s
    ∃ hist, happened res.2 = happened s ++ hist ∧
      (T ≤ res.1 → Reboots ids T ((shared s).monitor cnt) hist) ∧
      (¬T ≤ res.1 → Polls ids T ((shared s).monitor cnt) 1 hist
        ((shared res.2).monitor res.1)) := by
  obtain ⟨es, hes, hshared, hhappened⟩ := hH.next s .btIsConnected nofun
  rw [hH.isConnected] at hhappened
  rw [run_pollUploads hH cnt s]
  cases hconnected : (shared s).gBtIsConnected with
  | false =>
    rw [hconnected] at hhappened
    obtain ⟨hexpired, hrunning⟩ := polls_of_not_connected ids T hconnected cnt
    refine ⟨_, hhappened.trans (List.append_assoc _ _ _), fun h => ?_, fun h => ?_⟩
    · exact (hexpired h).callbacks hes
    · rw [if_neg Bool.false_ne_true, hshared]
      exact (hrunning h).trans (polls_of_callbacks ids T hes _ _)
  | true =>
    rw [hconnected] at hhappened
    obtain ⟨es', hes', hshared', hhappened'⟩ := hH.next_isUploading (H.next s .btIsConnected)
    obtain ⟨hexpired, hrunning⟩ := polls_of_connected ids T hconnected hes
      (H.answer (H.next s .btIsConnected) .isUploadingInProgress) cnt
    rw [← hshared] at hexpired hrunning
    refine ⟨_, ?_, fun h => (hexpired h).callbacks hes', fun h => ?_⟩
    · rw [hhappened] at hhappened'
      refine hhappened'.trans ?_
      simp only [List.append_assoc]
    · rw [if_pos rfl, hshared']
      exact (hrunning h).trans (polls_of_callbacks ids T hes' _ _)

/-- Where the main loop is left. -/
def Leaves (ids : MgmtIds) (T : UInt32) (shared : σ → Shared) (happened : σ → List Happening)
    (s₀ : σ) : RebootReason → σ → Prop
  | .timeout, s => RebootedSince ids T shared happened s₀ s
  | .requested, s => ∃ i cnt, PolledSince ids T shared happened s₀ i cnt s

/-- A round is one poll, or it leaves the loop. -/
theorem mainLoopRound_polls (hH : Shares ids H shared happened) (T : UInt32) (s₀ : σ) (i : ℕ)
    (cnt : UInt32) :
    Prog.Triple H (PolledSince ids T shared happened s₀ i cnt) (mainLoopRound T cnt)
      (Prog.Stays (PolledSince ids T shared happened s₀ (i + 1))
        (Leaves ids T shared happened s₀)) := by
  have hrequested : (@Prog.perform mainApi .flagRebootRequested).OnlyCalls
      fun c => isPolling c = false := ⟨rfl, fun _ => trivial⟩
  refine (polledSince_of_onlyCalls hH hrequested T s₀ i cnt).bind fun requested => ?_
  refine Prog.Triple.ite (fun _ => Prog.Triple.pure fun s hs => ⟨i, cnt, hs⟩) fun _ => ?_
  refine (polledSince_of_onlyCalls hH feedUnlessPressed_onlyCalls T s₀ i cnt).bind fun _ => ?_
  have hpoll : Prog.Triple H (PolledSince ids T shared happened s₀ i cnt) (pollUploads cnt)
      fun cnt' s => (T ≤ cnt' → RebootedSince ids T shared happened s₀ s) ∧
        (¬T ≤ cnt' → PolledSince ids T shared happened s₀ (i + 1) cnt' s) := by
    rintro s ⟨hist, hs, hpolls⟩
    obtain ⟨hist', hs', hexpired, hrunning⟩ := polls_pollUploads hH T cnt s
    have happ := hs'.trans (by rw [hs, List.append_assoc])
    exact ⟨fun h => ⟨hist ++ hist', happ, hpolls.reboots (hexpired h)⟩,
      fun h => ⟨hist ++ hist', happ, hpolls.trans (hrunning h)⟩⟩
  refine hpoll.bind fun cnt' => ?_
  refine Prog.Triple.ite (fun hexpired => ?_) fun hrunning => ?_
  · exact Prog.Triple.pure fun s hs => hs.1 hexpired
  · refine Prog.Triple.bind (Prog.Triple.conseq
      (polledSince_of_onlyCalls hH blinkRgbLed_onlyCalls T s₀ (i + 1) cnt')
      (fun s hs => hs.2 hrunning) fun _ _ hs => hs) fun _ => ?_
    exact Prog.Triple.pure fun s hs => hs

end

end

/-- In every environment that shares the variables with the callbacks, and whenever these run, the
main loop is a run of the monitor, whose events are what happens: from the connection and from the
counters the callbacks and the polls are seen in the same order. `n` rounds without a reboot are `n`
polls, the monitor reboots the device exactly if the loop is left by the time-out, and otherwise it
is where the loop is and no callback is left over. -/
theorem mainLoop_refines_monitor {σ : Type} {ids : MgmtIds} {H : Handler mainApi σ}
    {shared : σ → Shared} {happened : σ → List Happening} (hH : Shares ids H shared happened)
    (T : UInt32) (n : ℕ) (s : σ) :
    let p := Prog.loop (mainLoopRound T) n 0
    ∃ es m hist conns cmds,
      (Upload.monitor ids T).Run System.Any ((shared s).monitor 0) es m ∧
      happened (p.run H s).2 = happened s ++ hist ∧ Tells hist es conns cmds ∧
      (m.rebooted = true ↔ (p.run H s).1 = some .timeout) ∧
      ((p.run H s).1 = none → es.count .poll = n) ∧
      (m.rebooted = false → conns = [] ∧ cmds = [] ∧
        ∃ cnt, m = (shared (p.run H s).2).monitor cnt) := by
  intro p
  have hloop : (p.run H s).1.elim
      (∃ cnt, PolledSince ids T shared happened s (0 + n) cnt (p.run H s).2)
      fun reason => Leaves ids T shared happened s reason (p.run H s).2 :=
    Prog.Triple.loop (I := PolledSince ids T shared happened s)
      (X := Leaves ids T shared happened s) (fun i cnt => mainLoopRound_polls hH T s i cnt) n 0 0 s
      ⟨[], (List.append_nil _).symm, .refl _⟩
  cases hres : (p.run H s).1 with
  | none =>
    rw [hres] at hloop
    obtain ⟨cnt, hist, hhist, es, hrun, hcount, htells⟩ := hloop
    exact ⟨es, _, hist, [], [], hrun, hhist, htells, by simp [Shared.monitor],
      fun _ => hcount.trans (Nat.zero_add n), fun _ => ⟨rfl, rfl, cnt, rfl⟩⟩
  | some reason =>
    rw [hres] at hloop
    cases reason with
    | timeout =>
      obtain ⟨hist, hhist, es, m, conns, cmds, hrun, hrebooted, htells⟩ := hloop
      exact ⟨es, m, hist, conns, cmds, hrun, hhist, htells, by simp [hrebooted], nofun,
        fun h => absurd (hrebooted.symm.trans h) nofun⟩
    | requested =>
      obtain ⟨i, cnt, hist, hhist, es, hrun, -, htells⟩ := hloop
      exact ⟨es, _, hist, [], [], hrun, hhist, htells, by simp [Shared.monitor], nofun,
        fun _ => ⟨rfl, rfl, cnt, rfl⟩⟩

/-- Where an environment is: the callbacks that are still to run, the shared variables, and what has
happened. -/
structure Script where
  left : List (List Upload.Event)
  shared : Shared
  happened : List Happening

namespace Script

/-- Behind the next call, the next callbacks run. -/
def proceed (s : Script) (v : Shared) (call : Happening) : Script :=
  let es := (s.left.headD []).filter (· ≠ .poll)
  ⟨s.left.tail, es.foldl (Shared.handle zephyrIds) v, s.happened ++ [call] ++ es.map .inr⟩

/-- The answers from the shared variables; the others say that there is nothing to do. -/
def answer (s : Script) : Oracle mainApi
  | .btIsConnected => s.shared.gBtIsConnected
  | .isUploadingInProgress => s.shared.isUploadingInProgress.1
  | .deviceIsReady => false
  | .ledWriteChannels _ _ => (0 : Int32)
  | .checkAndReinitIfNeeded => false
  | .autoAnimationEnable _ => false
  | .autoAnimationConfigure _ _ => false
  | .autoAnimationStart => false
  | .fsStat _ gFsDirEntry => (-enoent, gFsDirEntry)
  | .flagRebootRequested => false
  | .setFlagRebootRequested => ()
  | .buttonIsPressed => false
  | .watchdogFeed => ()
  | .watchdogForceTrigger => ()
  | .kSleep _ => ()

/-- An environment in which callbacks run as a script says, behind one call after the other. -/
def handler : Handler mainApi Script where
  answer := answer
  next s
    | .isUploadingInProgress => s.proceed s.shared.isUploadingInProgress.2
        (.inl ⟨.isUploadingInProgress, s.answer .isUploadingInProgress⟩)
    | c => s.proceed s.shared (.inl ⟨c, s.answer c⟩)

theorem shares_handler : Shares zephyrIds handler shared happened := by
  have hscript (s : Script) (v : Shared) (call : Happening) :
      Callbacks zephyrIds v (s.happened ++ [call]) (s.proceed v call).shared
        (s.proceed v call).happened :=
    ⟨_, fun _ he => of_decide_eq_true (List.mem_filter.mp he).2, rfl, rfl⟩
  refine ⟨fun _ => rfl, fun _ => rfl, fun s => hscript s _ _, fun s c hc => ?_⟩
  cases c with
  | isUploadingInProgress => exact absurd rfl hc
  | _ => exact hscript s _ _

end Script

/-- A client disconnects and a command is received between the two calls of a poll: the command is
noticed, and the client is lost behind the poll. -/
theorem mainLoop_refines_monitor_sample :
    ∃ es cnt, (Upload.monitor zephyrIds 2).Run System.Any (Shared.monitor ⟨0, 0, true⟩ 0) es
        (Shared.monitor ⟨1, 1, false⟩ cnt) ∧
      es.filter (!isCmdRecv ·) = [.poll, .disconnected 0x13] ∧
      es.filter (!isConnChange ·) = [.cmdRecv 1 (some ⟨8⟩) 4, .poll] := by
  let s : Script := ⟨[[], [], [], [.disconnected 0x13, .cmdRecv 1 (some ⟨8⟩) 4]], ⟨0, 0, true⟩, []⟩
  have hres : ((Prog.loop (mainLoopRound 2) 1 0).run Script.handler s).1 = none := by decide
  have hshared : ((Prog.loop (mainLoopRound 2) 1 0).run Script.handler s).2.shared =
      ⟨1, 1, false⟩ := by decide
  obtain ⟨es, m, hist, conns, cmds, hrun, hhist, htells, hrebooted, -, hend⟩ :=
    mainLoop_refines_monitor Script.shares_handler 2 1 s
  rw [hres] at hrebooted
  obtain ⟨rfl, rfl, cnt, rfl⟩ := hend (Bool.eq_false_iff.mpr fun h => nomatch hrebooted.mp h)
  rw [hshared] at hrun
  rw [show s.happened = [] from rfl, List.nil_append] at hhist
  have hconn := htells.conn
  have hcmd := htells.cmd
  rw [← hhist, List.append_nil] at hconn hcmd
  exact ⟨es, cnt, hrun, hconn.symm.trans (by decide), hcmd.symm.trans (by decide)⟩

end FwLoader.Main
