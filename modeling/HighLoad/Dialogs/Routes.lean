/-
# HighLoad.Dialogs.Routes — the HTTP layer of the dialogs (`app/routes/dialogs.py`)

`send_message` and `list_messages` check what they are given and call the repository. What a user is
shown goes back to requests that passed these checks, whatever the operator does to the cluster beside
them: in any state of any script, raising commands and impossible shard counts included, the rows of the
shards are messages that `send_message` accepted (`AllSent`), and a page shows those of one pair of users
(`listed_were_sent`).
-/
import HighLoad.Dialogs.Log
import HighLoad.Dialogs.Protocol

namespace HighLoad.Dialogs

open DialogsCluster

/-! ## The routes -/

/-- `SendMessageRequest`. -/
structure SendMessageRequest where
  text : String
  length_text : 1 ≤ text.length ∧ text.length ≤ 10000

/-- The validation of the body of a request. -/
def SendMessageRequest.validate (text : String) : Except PyError SendMessageRequest :=
  if h : 1 ≤ text.length ∧ text.length ≤ 10000 then .ok ⟨text, h⟩ else .error .requestValidationError

/-- `send_message`, up to the call of the repository that it awaits; `messageId` is what that call draws. -/
def sendMessage (userId : Uuid) (body : SendMessageRequest) (currentUser messageId : Uuid) :
    Except PyError Action :=
  if userId = currentUser then .error (.httpException 400 "Cannot send a message to yourself")
  else .ok (.send currentUser userId body.text messageId)

/-- `POST /dialog/{user_id}/send`. -/
def postMessage (userId : Uuid) (text : String) (currentUser messageId : Uuid) : Except PyError Action := do
  let body ← SendMessageRequest.validate text
  sendMessage userId body currentUser messageId

/-- `GET /dialog/{user_id}/list`; a `DialogMessage` has the fields of the DTO. -/
def listMessages (c : DialogsCluster) (userId currentUser : Uuid) (limit offset : Int) :
    Except PyError (List DialogMessageDTO) :=
  if 1 ≤ limit ∧ limit ≤ 500 ∧ 0 ≤ offset then list c currentUser userId limit.toNat offset.toNat
  else .error .requestValidationError

/-- What happens next at a server: somebody posts a message, or a call, the operator or a running
backfill goes on, or the operator begins another script. -/
inductive HttpAction where
  | post (userId : Uuid) (text : String) (currentUser messageId : Uuid)
  | insert (call : Nat) (now : DateTime)
  | sendReturns (call : Nat)
  | command
  | backfill
  | script (commands : List Command)

/-- One step. A request that is refused leaves everything as it was. The operator may begin another script
when the last one is through, or has stopped at an exception. -/
def serve (quiet : Bool) : HttpAction → System → Option System
  | .post userId text currentUser messageId, s =>
      match postMessage userId text currentUser messageId with
      | .ok a => System.step quiet a s
      | .error _ => some s
  | .insert call now, s => System.step quiet (.insert call now) s
  | .sendReturns call, s => System.step quiet (.sendReturns call) s
  | .command, s => System.step quiet .command s
  | .backfill, s => System.step quiet .backfill s
  | .script commands, s =>
      if s.running.isNone && s.script.isEmpty then some { s with script := commands } else none

/-- What passes the checks: a text of 1 to 10 000 characters for somebody else. -/
theorem postMessage_ok {userId currentUser messageId : Uuid} {text : String} {a : Action}
    (h : postMessage userId text currentUser messageId = .ok a) :
    a = .send currentUser userId text messageId ∧ userId ≠ currentUser ∧ 1 ≤ text.length ∧
      text.length ≤ 10000 := by
  unfold postMessage SendMessageRequest.validate at h
  by_cases hlength : 1 ≤ text.length ∧ text.length ≤ 10000
  · rw [dif_pos hlength] at h
    change sendMessage userId ⟨text, hlength⟩ currentUser messageId = .ok a at h
    unfold sendMessage at h
    split_ifs at h with hself
    exact ⟨(Except.ok.inj h).symm, hself, hlength⟩
  · rw [dif_neg hlength] at h
    cases h

/-! ## Computations that store no other messages -/

/-- Every stored message satisfies `P`. -/
def AllMessages (P : Message → Prop) (c : DialogsCluster) : Prop :=
  ∀ i, ∀ r ∈ (c.shard i).rows, P r.val.message

/-- The computation keeps `AllMessages P`, whether it returns or raises, and what it returns satisfies
`Q`. -/
def Keeps {α : Type} (P : Message → Prop) (x : ClusterM α) (Q : α → Prop) : Prop :=
  ∀ c, AllMessages P c →
    match x c with
    | .ok a c' => AllMessages P c' ∧ Q a
    | .error _ c' => AllMessages P c'

section

variable {P : Message → Prop} {α β : Type} {c : DialogsCluster}

theorem Keeps.bind {x : ClusterM α} {f : α → ClusterM β} {Q : α → Prop} {Q' : β → Prop}
    (hx : Keeps P x Q) (hf : ∀ a, Q a → Keeps P (f a) Q') : Keeps P (x >>= f) Q' := by
  intro c hc
  have hfirst := hx c hc
  cases hrun : x c with
  | ok a c' =>
      rw [hrun] at hfirst
      rw [bind_eq_of_ok hrun]
      exact hf a hfirst.2 c' hfirst.1
  | error e c' =>
      rw [hrun] at hfirst
      rw [bind_eq_of_error hrun]
      exact hfirst

theorem keeps_pure {a : α} {Q : α → Prop} (h : Q a) : Keeps P (pure a) Q := fun _ hc => ⟨hc, h⟩

theorem keeps_throw (e : PyError) (Q : α → Prop) : Keeps P (throw e) Q := fun _ hc => hc

theorem keeps_get : Keeps P get (AllMessages P) := fun _ hc => ⟨hc, hc⟩

theorem keeps_liftExcept (x : Except PyError α) : Keeps P (liftExcept x) fun _ => True := by
  intro c hc
  cases x with
  | ok a => exact ⟨hc, trivial⟩
  | error e => exact hc

theorem keeps_modify {f : DialogsCluster → DialogsCluster}
    (h : ∀ c, AllMessages P c → AllMessages P (f c)) : Keeps P (modify f) fun _ => True :=
  fun c hc => ⟨h c hc, trivial⟩

theorem keeps_forM {l : List α} {f : α → ClusterM Unit} (h : ∀ a ∈ l, Keeps P (f a) fun _ => True) :
    Keeps P (l.forM f) fun _ => True := by
  induction l with
  | nil => exact keeps_pure trivial
  | cons a l ih =>
      exact (h a List.mem_cons_self).bind fun _ _ => ih fun b hb => h b (List.mem_cons_of_mem a hb)

theorem AllMessages.modifyShard (h : AllMessages P c) (idx : Nat) {f : Shard → Shard}
    (hf : ∀ t : Shard, (∀ r ∈ t.rows, P r.val.message) → ∀ r ∈ (f t).rows, P r.val.message) :
    AllMessages P (c.modifyShard idx f) := by
  intro i r hr
  by_cases hi : idx = i
  · subst hi
    by_cases hlt : idx < c.nShards
    · rw [shard_modifyShard_self hlt] at hr
      exact hf _ (h idx) r hr
    · have hlt' := lt_nShards_of_mem_rows hr
      rw [nShards_modifyShard] at hlt'
      exact absurd hlt' hlt
  · rw [shard_modifyShard_ne hi] at hr
    exact h i r hr

theorem AllMessages.insertMessage (h : AllMessages P c) (idx : Nat) {m : StoredMessage}
    (hm : P m.message) : AllMessages P (c.insertMessage idx m) := by
  refine h.modifyShard idx fun t ht r hr => ?_
  rcases SerialTable.mem_rows_insert.mp hr with hold | ⟨-, rfl⟩
  · exact ht r hold
  · exact hm

/-! ## The commands -/

theorem keeps_reconfigure (readN writeN : Option Int) (dualWrite : Option Bool) :
    Keeps P (reconfigure readN writeN dualWrite) fun _ => True := by
  have hassign : ∀ c, AllMessages P c → AllMessages P (c.assign readN writeN dualWrite) := fun _ hc => hc
  exact (keeps_modify hassign).bind fun _ _ => keeps_get.bind fun _ _ => keeps_liftExcept _

theorem keeps_copyRow (newN : Int) (srcIdx : Nat) {row : Row} (hrow : P row.val.message) :
    Keeps P (copyRow newN srcIdx row) fun _ => True := by
  refine (keeps_liftExcept _).bind fun newIdx _ => ?_
  split_ifs
  · exact keeps_pure trivial
  · refine keeps_get.bind fun _ _ => (keeps_liftExcept _).bind fun dst _ => ?_
    exact keeps_modify fun c hc => hc.insertMessage dst hrow

theorem keeps_backfillPages (newN : Int) (srcIdx fuel lastId : Nat) :
    Keeps P (backfillPages newN srcIdx fuel lastId) fun _ => True := by
  induction fuel generalizing lastId with
  | zero => exact keeps_throw _ fun _ => True
  | succ fuel ih =>
      refine keeps_get.bind fun _ _ => (keeps_liftExcept _).bind fun src _ => ?_
      refine keeps_get.bind fun c hc => ?_
      have hpage : ∀ row ∈ (c.shard src).page lastId batch, P row.val.message :=
        fun row hrow => hc src row (SerialTable.mem_of_mem_page hrow).1
      dsimp only
      cases ((c.shard src).page lastId batch).getLast? with
      | none => exact keeps_pure trivial
      | some last =>
          exact (keeps_forM fun row hrow => keeps_copyRow newN srcIdx (hpage row hrow)).bind
            fun _ _ => ih last.id

theorem keeps_cleanupShard (newN : Int) (shardIdx : Nat) :
    Keeps P (cleanupShard newN shardIdx) fun _ => True := by
  refine keeps_get.bind fun _ _ => (keeps_liftExcept _).bind fun idx _ => ?_
  refine keeps_get.bind fun _ _ => (keeps_liftExcept _).bind fun ids _ => ?_
  split_ifs
  · refine keeps_modify fun c hc => hc.modifyShard idx fun t ht r hr => ht r ?_
    exact (SerialTable.mem_rows_deleteIds.mp hr).1
  · exact keeps_pure trivial

/-- **No command stores a message that was not stored before**, whatever its arguments are and wherever
it raises. -/
theorem keeps_run (cmd : Command) : Keeps P cmd.run fun _ => True := by
  cases cmd with
  | enableDualWrite newN => exact keeps_reconfigure _ _ _
  | switchRead newN => exact keeps_reconfigure _ _ _
  | disableDualWrite => exact keeps_reconfigure _ _ _
  | verify newN => exact keeps_get.bind fun c _ => keeps_liftExcept _
  | backfill newN =>
      show Keeps P (cmdBackfill newN) _
      unfold cmdBackfill
      refine keeps_get.bind fun c _ => ?_
      have hloops : Keeps P (do
          let oldN := (← get).readN.toNat
          (List.range oldN).forM (backfillShard newN)) fun _ => True := by
        refine keeps_get.bind fun c _ => keeps_forM fun i _ => ?_
        exact keeps_get.bind fun c _ => keeps_backfillPages _ _ _ _
      split_ifs
      · exact (keeps_throw _ fun _ => True).bind fun _ _ => hloops
      · exact hloops
  | cleanup newN =>
      show Keeps P (cmdCleanup newN) _
      unfold cmdCleanup
      refine keeps_get.bind fun c _ => ?_
      have hloop : Keeps P ((List.range newN.toNat).forM (cleanupShard newN)) fun _ => True :=
        keeps_forM fun i _ => keeps_cleanupShard newN i
      split_ifs
      · exact (keeps_throw _ fun _ => True).bind fun _ _ => hloop
      · exact hloop

/-- One await of a backfill copies a row it has fetched, or fetches stored ones. -/
theorem keeps_backfillStep {b : Backfill} (hpage : ∀ r ∈ b.page, P r.val.message) :
    Keeps P (backfillStep b) fun ob => ∀ b', ob = some b' → ∀ r ∈ b'.page, P r.val.message := by
  unfold backfillStep
  cases hb : b.page with
  | cons row rest =>
      rw [hb] at hpage
      dsimp only
      refine (keeps_copyRow b.newN b.srcIdx (hpage row List.mem_cons_self)).bind fun _ _ => keeps_pure ?_
      rintro b' hb' r hr
      obtain rfl := Option.some.inj hb'
      exact hpage r (List.mem_cons_of_mem row hr)
  | nil =>
      split_ifs
      · refine keeps_get.bind fun _ _ => (keeps_liftExcept _).bind fun src _ => ?_
        refine keeps_get.bind fun c hc => ?_
        dsimp only
        cases ((c.shard src).page b.lastId batch).getLast? with
        | none =>
            refine keeps_pure ?_
            rintro b' hb' r hr
            obtain rfl := Option.some.inj hb'
            cases hr
        | some last =>
            refine keeps_pure ?_
            rintro b' hb' r hr
            obtain rfl := Option.some.inj hb'
            exact hc src r (SerialTable.mem_of_mem_page hr).1
      · refine keeps_pure ?_
        rintro b' hb'
        cases hb'

end

/-! ## The invariant -/

/-- Every message there is satisfies `P`: in the shards, in the calls in flight and in the page that a
running backfill has fetched. -/
structure AllSent (P : Message → Prop) (s : System) : Prop where
  stored : AllMessages P s.cluster
  calls : ∀ p ∈ s.inflight, P p.message
  page : ∀ b, s.running = some b → ∀ r ∈ b.page, P r.val.message

theorem allSent_start (P : Message → Prop) (N n : Nat) (script : List Command) :
    AllSent P (System.start (fresh N n) script) where
  stored i r hr := by
    change r ∈ ((fresh N n).shard i).rows at hr
    rw [shard_fresh] at hr
    cases hr
  calls p hp := by cases hp
  page b hb := by cases hb

section

variable {P : Message → Prop} {s s' : System} {quiet : Bool}

theorem AllSent.abort (h : AllSent P s) {c : DialogsCluster} (hc : AllMessages P c) (e : PyError) :
    AllSent P (s.abort c e) where
  stored := hc
  calls := h.calls
  page b hb := by cases hb

theorem AllSent.runCommand (h : AllSent P s) (hidle : s.running = none) (cmd : Command) :
    AllSent P (s.runCommand cmd) := by
  cases hcmd : System.isBackfill cmd with
  | true =>
      cases cmd with
      | backfill newN =>
          show AllSent P (s.startBackfill newN)
          unfold System.startBackfill
          split_ifs
          · refine ⟨h.stored, h.calls, fun b hb r hr => ?_⟩
            obtain rfl := Option.some.inj hb
            cases hr
          · exact h.abort h.stored _
      | _ => cases hcmd
  | false =>
      have hrun := keeps_run (P := P) cmd s.cluster h.stored
      have hkeeps : ∀ c, AllMessages P c → AllSent P { s with cluster := c } := fun c hc =>
        ⟨hc, h.calls, fun b hb => by
          change s.running = some b at hb
          rw [hidle] at hb
          cases hb⟩
      cases cmd with
      | backfill newN => cases hcmd
      | _ =>
          unfold System.runCommand
          dsimp only
          split at hrun
          · rename_i a c hok
            rw [hok]
            exact hkeeps c hrun.1
          · rename_i e c herror
            rw [herror]
            exact h.abort hrun e

/-- **The step lemma**, for the steps that build no message. -/
theorem AllSent.step (h : AllSent P s) {a : Action}
    (hsend : ∀ fromId toId text messageId, a = .send fromId toId text messageId →
      P (newMessage fromId toId text messageId))
    (hstep : System.step quiet a s = some s') : AllSent P s' := by
  cases a with
  | send fromId toId text messageId =>
      have hm := hsend fromId toId text messageId rfl
      change s.beginSend fromId toId text messageId = some s' at hstep
      unfold System.beginSend at hstep
      dsimp only at hstep
      split_ifs at hstep
      split at hstep
      · obtain rfl := Option.some.inj hstep
        refine ⟨h.stored, fun p hp => ?_, h.page⟩
        rcases List.mem_append.mp hp with hp | hp
        · exact h.calls p hp
        · rw [List.mem_singleton.mp hp]
          exact hm
      · obtain rfl := Option.some.inj hstep
        exact h
  | insert call now =>
      obtain ⟨m, idx, rest, hcall, rfl⟩ := System.runInsert_cases hstep
      have hm : P m := h.calls ⟨m, idx :: rest⟩ (List.mem_of_getElem? hcall)
      refine ⟨h.stored.insertMessage idx hm, fun p hp => ?_, h.page⟩
      rcases List.mem_or_eq_of_mem_set hp with hp | rfl
      · exact h.calls p hp
      · exact hm
  | sendReturns call =>
      obtain ⟨m, -, rfl⟩ := System.endSend_cases hstep
      exact ⟨h.stored, fun p hp => h.calls p (List.mem_of_mem_eraseIdx hp), h.page⟩
  | command =>
      obtain ⟨cmd, rest, hidle, -, -, rfl⟩ := System.nextCommand_cases hstep
      have h' : AllSent P { s with script := rest } := ⟨h.stored, h.calls, h.page⟩
      exact h'.runCommand hidle cmd
  | backfill =>
      obtain ⟨b, hrun, hcase⟩ := System.awaitBackfill_cases hstep
      have hkeeps := keeps_backfillStep (h.page b hrun) s.cluster h.stored
      rcases hcase with ⟨ob, c, hok, rfl⟩ | ⟨e, c, herror, rfl⟩
      · rw [hok] at hkeeps
        exact ⟨hkeeps.1, h.calls, fun b' hb' => hkeeps.2 b' hb'⟩
      · rw [herror] at hkeeps
        exact h.abort hkeeps e

/-- A message that `send_message` accepted in the run. -/
def Accepted (acts : List HttpAction) (m : Message) : Prop :=
  ∃ userId text currentUser messageId, .post userId text currentUser messageId ∈ acts ∧
    postMessage userId text currentUser messageId = .ok (.send currentUser userId text messageId) ∧
    m = newMessage currentUser userId text messageId

/-- The run lemma. -/
theorem allSent_of_exec {acts : List HttpAction} {N n : Nat} {script : List Command}
    (h : exec (serve quiet) acts (System.start (fresh N n) script) = some s) :
    AllSent (Accepted acts) s := by
  refine exec_invariant ?_ (allSent_start (Accepted acts) N n script) h
  intro a ha t t' ht hstep
  have hno : ∀ b, (∀ fromId toId text messageId, b ≠ Action.send fromId toId text messageId) →
      System.step quiet b t = some t' → AllSent (Accepted acts) t' := fun b hb hb' =>
    ht.step (fun fromId toId text messageId heq => absurd heq (hb fromId toId text messageId)) hb'
  cases a with
  | post userId text currentUser messageId =>
      simp only [serve] at hstep
      cases hpost : postMessage userId text currentUser messageId with
      | error e =>
          rw [hpost] at hstep
          obtain rfl := Option.some.inj hstep
          exact ht
      | ok b =>
          rw [hpost] at hstep
          obtain ⟨rfl, -⟩ := postMessage_ok hpost
          refine ht.step (fun fromId toId text' messageId' heq => ?_) hstep
          cases heq
          exact ⟨userId, text, currentUser, messageId, ha, hpost, rfl⟩
  | insert call now => exact hno (.insert call now) (fun _ _ _ _ => by simp) hstep
  | sendReturns call => exact hno (.sendReturns call) (fun _ _ _ _ => by simp) hstep
  | command => exact hno (.command) (fun _ _ _ _ => by simp) hstep
  | backfill => exact hno (.backfill) (fun _ _ _ _ => by simp) hstep
  | script commands =>
      simp only [serve] at hstep
      split_ifs at hstep
      obtain rfl := Option.some.inj hstep
      exact ⟨ht.stored, ht.calls, ht.page⟩

/-- **A page shows what was sent between the two users**, and no more of it than was asked for. Whatever
the operator has done to the cluster, each of its messages is one that somebody posted to somebody else,
with a text of an allowed length; and unless two pairs of users collide under SHA-256, sender and
recipient are the reader and the user the reader asked for. -/
theorem listed_were_sent {acts : List HttpAction} {N n : Nat} {script : List Command}
    (h : exec (serve quiet) acts (System.start (fresh N n) script) = some s) {userId currentUser : Uuid}
    {limit offset : Int} {page : List DialogMessageDTO}
    (hlist : listMessages s.cluster userId currentUser limit offset = .ok page) :
    (page.length : Int) ≤ limit ∧ limit ≤ 500 ∧ ∀ d ∈ page,
      d.fromUserId ≠ d.toUserId ∧ 1 ≤ d.text.length ∧ d.text.length ≤ 10000 ∧
      (∃ messageId, .post d.toUserId d.text d.fromUserId messageId ∈ acts) ∧
      ((d.fromUserId = currentUser ∧ d.toUserId = userId) ∨
        (d.fromUserId = userId ∧ d.toUserId = currentUser) ∨
        (chatIdPayload d.fromUserId d.toUserId ≠ chatIdPayload currentUser userId ∧
          computeChatId d.fromUserId d.toUserId = computeChatId currentUser userId)) := by
  have hsent := (allSent_of_exec h).stored
  unfold listMessages at hlist
  split_ifs at hlist with hrange
  cases hidx : s.cluster.readPoolForChat (computeChatId currentUser userId) with
  | error e =>
      simp only [list, fetchMessages, hidx] at hlist
      cases hlist
  | ok idx =>
      rw [list_eq hidx] at hlist
      obtain rfl := Except.ok.inj hlist
      refine ⟨?_, hrange.2.1, fun d hd => ?_⟩
      · rw [List.length_map, selectMessages, List.length_take]
        omega
      · obtain ⟨r, hr, rfl⟩ := List.mem_map.mp hd
        have hrow : r ∈ (s.cluster.shard idx).rows ∧
            r.val.message.chatId = computeChatId currentUser userId := by
          have hsorted := List.mem_of_mem_drop (List.mem_of_mem_take hr)
          rw [List.mem_insertionSort, List.mem_filter, decide_eq_true_eq] at hsorted
          exact hsorted
        obtain ⟨toId, text, fromId, messageId, hpost, haccepted, hm⟩ := hsent idx r hrow.1
        obtain ⟨-, hself, hlow, hhigh⟩ := postMessage_ok haccepted
        have hchat : computeChatId fromId toId = computeChatId currentUser userId := by
          rw [← hrow.2, hm]
          rfl
        have hdto : r.val.toDTO = ⟨fromId, toId, text, r.val.createdAt⟩ := by
          rw [StoredMessage.toDTO, hm]
          rfl
        rw [hdto]
        refine ⟨hself.symm, hlow, hhigh, ⟨messageId, hpost⟩, ?_⟩
        by_cases hpayload : chatIdPayload fromId toId = chatIdPayload currentUser userId
        · rcases chatIdPayload_inj hpayload with hsame | hcross
          · exact Or.inl hsame
          · exact Or.inr (Or.inl hcross)
        · exact Or.inr (Or.inr ⟨hpayload, hchat⟩)

end

/-- A message refused, two posted, a script that asks for more shards than there are, and the one for
those that there are. -/
def postedTwice : List HttpAction :=
  [.post (.ofNat 1) "hm" (.ofNat 1) (.ofNat 10), .post (.ofNat 2) "a" (.ofNat 1) (.ofNat 11),
    .insert 0 (nineOnDay 1 first_day), .sendReturns 0, .command, .script [.enableDualWrite 2, .backfill 2],
    .command, .command, .backfill, .backfill, .post (.ofNat 1) "b" (.ofNat 2) (.ofNat 12)]

theorem listed_were_sent_postedTwice : ∃ s,
    exec (serve false) postedTwice (System.start (fresh 2 1) [.enableDualWrite 3, .backfill 3]) = some s ∧
      ∃ page, listMessages s.cluster (.ofNat 2) (.ofNat 1) 10 0 = .ok page ∧
        page.map DialogMessageDTO.text = ["a"] ∧ ∀ d ∈ page, d.fromUserId ≠ d.toUserId := by
  have hrun : (exec (serve false) postedTwice
      (System.start (fresh 2 1) [.enableDualWrite 3, .backfill 3])).map (fun s =>
        (listMessages s.cluster (.ofNat 2) (.ofNat 1) 10 0).toOption.map (·.map DialogMessageDTO.text))
      = some (some ["a"]) := by
    decide +kernel
  obtain ⟨s, hs, hpage⟩ := Option.map_eq_some_iff.mp hrun
  obtain ⟨page, hpage, htexts⟩ := Option.map_eq_some_iff.mp hpage
  have hlist : listMessages s.cluster (.ofNat 2) (.ofNat 1) 10 0 = .ok page := by
    cases hl : listMessages s.cluster (.ofNat 2) (.ofNat 1) 10 0 with
    | error e =>
        rw [hl] at hpage
        cases hpage
    | ok page' =>
        rw [hl] at hpage
        rw [Option.some.inj hpage]
  exact ⟨s, hs, page, hlist, htexts, fun d hd => ((listed_were_sent hs hlist).2.2 d hd).1⟩

end HighLoad.Dialogs
