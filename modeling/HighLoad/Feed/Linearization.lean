/-
# HighLoad.Feed.Linearization — the tables under concurrent calls

Each of the five calls that write to the tables does so with one statement, and whether it returns or
raises is decided there; no other command touches the tables. So the calls are linearizable on the
tables, under every transport: `tables_linearizable` compares a run with the same handlers called one
after the other. What one user has in the tables is out of reach of everybody else (`tables_owned`).
-/
import HighLoad.Feed.Concurrent
import HighLoad.Feed.Pagination
import HighLoad.Lib.Linearize

namespace HighLoad.Feed

open Prog

variable {order : RowOrder} {cfg : Settings} {w : World} {u : Uuid} {db : Database}

/-! ## What the calls are for -/

/-- The tables after a statement that may raise. -/
def Database.afterOk (db : Database) : Except PyError Database → Database
  | .ok db' => db'
  | .error _ => db

/-- What a call does to the tables, and how it ends if it writes to them. -/
def Call.operation : Call → Operation Database PyError Response
  | .createPost user text id now =>
      { effect := fun db => db.afterOk ((db.insertPost user text id now).map Prod.snd)
        answer := fun db => some ((db.insertPost user text id now).map fun _ => .postId id) }
  | .updatePost user id text =>
      { effect := fun db => (db.updatePost text id user).2
        answer := fun db =>
          some (if (db.updatePost text id user).1.isSome then .ok .ok else .error postNotOwned) }
  | .deletePost user id _ =>
      { effect := fun db => (db.deletePost id user).2
        answer := fun db =>
          some (if (db.deletePost id user).1.isSome then .ok .ok else .error postNotOwned) }
  | .setFriend user friend =>
      { effect := fun db =>
          if friend = user ∨ friend ∉ db.users then db
          else db.afterOk (db.insertFriendship user friend)
        answer := fun db =>
          some (if friend = user then .error (.httpException 400 "Cannot befriend yourself")
            else if friend ∉ db.users then .error (.httpException 404 "Target user not found")
            else (db.insertFriendship user friend).map fun _ => .ok) }
  | .deleteFriend user friend =>
      { effect := fun db => db.deleteFriendship user friend
        answer := fun _ => some (.ok .ok) }
  | .rebuildFeed _ _ => .idle
  | .getFeed _ _ _ _ => .idle

/-- The user a call is made for. -/
def Call.caller : Call → Uuid
  | .createPost user _ _ _ => user
  | .updatePost user _ _ => user
  | .deletePost user _ _ => user
  | .setFriend user _ => user
  | .deleteFriend user _ => user
  | .rebuildFeed user _ => user
  | .getFeed user _ _ _ => user

/-- The call writes to the tables. -/
def Call.writes : Call → Bool
  | .rebuildFeed _ _ => false
  | .getFeed _ _ _ _ => false
  | _ => true

/-- No call adds or removes users. -/
theorem Call.users_effect (c : Call) (db : Database) : (c.operation.effect db).users = db.users := by
  cases c with
  | createPost user text id now =>
      obtain ⟨e, he⟩ | ⟨db', hok, husers, -⟩ := db.insertPost_cases user text id now
      · simp [operation, he, Except.map, Database.afterOk]
      · simp [operation, hok, Except.map, Database.afterOk, husers]
  | setFriend user friend =>
      simp only [operation]
      split_ifs
      · rfl
      · obtain ⟨e, -, he⟩ | ⟨db', hok, husers, -⟩ := db.insertFriendship_cases user friend
        · rw [he]
          rfl
        · rw [hok]
          exact husers
  | updatePost user id text => rfl
  | deletePost user id now => rfl
  | deleteFriend user friend => rfl
  | rebuildFeed user nonce => rfl
  | getFeed user nonce offset limit => rfl

/-- **What a user has in the tables changes by that user's calls.** -/
theorem Call.owned_effect (c : Call) (hc : c.caller ≠ u) (db : Database) :
    (c.operation.effect db).posts.filter (fun p => p.authorId = u)
        = db.posts.filter (fun p => p.authorId = u) ∧
      ∀ v, (c.operation.effect db).Follows u v ↔ db.Follows u v := by
  cases c with
  | createPost user text id now =>
      have hne : ¬ user = u := hc
      obtain ⟨e, he⟩ | ⟨db', hok, -, hposts, hfriends⟩ := db.insertPost_cases user text id now
      · simp [operation, he, Except.map, Database.afterOk]
      · simp only [operation, hok, Except.map, Database.afterOk]
        refine ⟨?_, Database.follows_congr hfriends u⟩
        rw [hposts, List.filter_append]
        simp [hne]
  | updatePost user id text =>
      have hne : ¬ user = u := hc
      refine ⟨?_, fun v => Iff.rfl⟩
      show (db.posts.map (Database.setText text id user)).filter _ = _
      rw [List.filter_map]
      have hmine : ∀ p ∈ db.posts.filter (fun p => p.authorId = u), Database.setText text id user p = p := by
        intro p hp
        have hauthor : p.authorId = u := of_decide_eq_true (List.mem_filter.mp hp).2
        exact if_neg fun h => hne (h.2.symm.trans hauthor)
      have hcomp : (fun p : PostRow => decide (p.authorId = u)) ∘ Database.setText text id user
          = fun p => decide (p.authorId = u) := by
        funext p
        simp
      rw [hcomp, List.map_congr_left hmine, List.map_id']
  | deletePost user id now =>
      have hne : ¬ user = u := hc
      refine ⟨?_, fun v => Iff.rfl⟩
      show (db.posts.filter _).filter _ = _
      rw [List.filter_filter]
      refine List.filter_congr fun p _ => ?_
      grind
  | setFriend user friend =>
      have hne : ¬ user = u := hc
      simp only [operation]
      split_ifs
      · exact ⟨rfl, fun v => Iff.rfl⟩
      · obtain ⟨e, -, he⟩ | ⟨db', hok, -, hposts, hfollows⟩ := db.insertFriendship_cases user friend
        · rw [he]
          exact ⟨rfl, fun v => Iff.rfl⟩
        · rw [hok]
          refine ⟨by rw [Database.afterOk, hposts], fun v => ?_⟩
          refine (hfollows u v).trans (or_iff_left ?_)
          exact fun h => hne h.1.symm
  | deleteFriend user friend =>
      have hne : ¬ user = u := hc
      refine ⟨rfl, fun v => ?_⟩
      refine Database.follows_deleteFriendship.trans (and_iff_left ?_)
      exact fun h => hne h.1.symm
  | rebuildFeed user nonce => exact ⟨rfl, fun v => Iff.rfl⟩
  | getFeed user nonce offset limit => exact ⟨rfl, fun v => Iff.rfl⟩

/-! ## The calls perform their operations -/

theorem reads_rebuildFeedForUser (userId nonce : Uuid) :
    (rebuildFeedForUser cfg userId nonce).Within (exec order) Reads fun _ => True :=
  within_rebuildFeedForUser (fun _ _ hc => hc.1) _ _ (fun _ _ => rfl) rfl

theorem reads_readItems (nonce userId : Uuid) (offset limit : Nat) :
    (readItems cfg nonce userId offset limit).Within (exec order) Reads fun _ => True :=
  (compositional_within fun _ _ hc => hc.1).readItems _ _ _ _ (reads_rebuildFeedForUser userId nonce)

/-- Commands that do not write to the tables leave them alone. -/
theorem settled_of_reads {α : Type} {p : Py α} {Q : Except PyError α → Prop}
    (hp : p.Within (exec order) Reads Q) : p.Settled (exec order) World.db Q :=
  hp.mono (fun _ _ hc => hc.db) fun _ hr => hr

/-- A program that returns, then `pure a`, answers with `a`. -/
theorem answers_pure {p : Py Unit} {a : Response} {o : Operation Database PyError Response}
    (hp : p.Within (exec order) Calm Returns) (ha : o.answer db = some (.ok a)) :
    (p >>= fun _ => pure a : Py Response).Settled (exec order) World.db (o.Answers db) := by
  refine (settled_of_reads (reads_of_calm hp)).then fun _ r hr => ?_
  rw [ha] at hr
  exact Option.some.inj hr

/-- A program that raises answers with the exception. -/
theorem answers_raise (order : RowOrder) {e : PyError} {o : Operation Database PyError Response}
    (he : o.answer db = some (.error e)) :
    (raise e : Py Response).Settled (exec order) World.db (o.Answers db) := by
  intro r hr
  rw [he] at hr
  exact Option.some.inj hr

/-- **A call performs its operation**, as long as nobody joins or leaves. -/
theorem Call.fulfils (order : RowOrder) (cfg : Settings) (users : List Uuid) (c : Call) :
    (c.program cfg).Fulfils (exec order) World.db (fun db => db.users = users) c.operation := by
  cases c with
  | createPost user text id now =>
      refine Or.inl (pending_call fun w _ => ?_)
      obtain ⟨e, he⟩ | ⟨db', hok, -⟩ := w.db.insertPost_cases user text id now
      · refine Or.inr ⟨e, ?_, ?_, ?_⟩
        · simp only [exec, he, Except.map]
        · simp only [operation, he, Except.map, Database.afterOk]
        · intro r hr
          simpa [operation, he, Except.map] using hr
      · refine Or.inl ⟨some ⟨id, user, text, now⟩, { w with db := db' }, ?_, Or.inr ⟨?_, ?_⟩⟩
        · simp only [exec, hok, Except.map]
        · simp only [operation, hok, Except.map, Database.afterOk]
        · refine (settled_of_reads (reads_of_calm (calm_of_plain
            (plain_storePostHash _ _ _ _)))).then fun _ => ?_
          refine answers_pure (calm_announceCreated _ _ _) ?_
          simp only [operation, hok, Except.map]
  | updatePost user id text =>
      refine Or.inl (pending_call fun w _ => Or.inl ⟨_, _, rfl, Or.inr ⟨rfl, ?_⟩⟩)
      cases hrow : (w.db.updatePost text id user).1 with
      | none => exact answers_raise order (by simp only [operation, hrow]; rfl)
      | some row =>
          refine answers_pure (calm_of_plain (plain_storePostHash _ _ _ _)) ?_
          simp only [operation, hrow]
          rfl
  | deletePost user id now =>
      refine Or.inl (pending_call fun w _ => Or.inl ⟨_, _, rfl, Or.inr ⟨rfl, ?_⟩⟩)
      cases hrow : (w.db.deletePost id user).1 with
      | none => exact answers_raise order (by simp only [operation, hrow]; rfl)
      | some row =>
          refine (settled_of_reads (reads_of_calm (calm_of_plain
            (plain_call (c := .deleteHash id) ⟨rfl, rfl⟩)))).then fun _ => ?_
          refine answers_pure (calm_of_plain (plain_announceDeleted _ _ _)) ?_
          simp only [operation, hrow]
          rfl
  | setFriend user friend =>
      show (Feed.setFriend cfg user friend).Fulfils _ _ _ _
      unfold Feed.setFriend
      split_ifs with hself
      · refine fulfils_raise fun db _ => ⟨?_, ?_⟩
        · simp only [operation, hself, true_or, if_true]
        · exact answers_raise order (by simp only [operation, hself, if_true])
      · -- the user read before the insertion is still there: nobody leaves
        refine Or.inl (pending_call fun w hw => Or.inl ⟨_, _, rfl, ?_⟩)
        by_cases hfriend : friend ∈ w.db.users
        · refine Or.inl ⟨rfl, ?_⟩
          have hfound : w.db.userExists friend = true := decide_eq_true hfriend
          rw [hfound]
          refine pending_call fun w' hw' => ?_
          have hfriend' : friend ∈ w'.db.users := by
            rw [hw', ← hw]
            exact hfriend
          obtain ⟨e, -, he⟩ | ⟨db', hok, -⟩ := w'.db.insertFriendship_cases user friend
          · refine Or.inr ⟨e, ?_, ?_, ?_⟩
            · simp only [exec, he, Except.map]
            · simp only [operation, he, Database.afterOk, ite_self]
            · refine answers_raise order ?_
              simp only [operation, hself, hfriend', he, Except.map, not_true_eq_false, if_false]
          · refine Or.inl ⟨(), { w' with db := db' }, ?_, Or.inr ⟨?_, ?_⟩⟩
            · simp only [exec, hok, Except.map]
            · simp only [operation, hself, hfriend', hok, Database.afterOk, not_true_eq_false, or_self,
                if_false]
            · refine answers_pure (calm_addFriendPostsToFeed _ _) ?_
              simp only [operation, hself, hfriend', hok, Except.map, not_true_eq_false, if_false]
        · have hfound : w.db.userExists friend = false := decide_eq_false hfriend
          rw [hfound]
          refine Or.inr ⟨?_, answers_raise order ?_⟩
          · simp only [operation, hfriend, not_false_eq_true, or_true, if_true]
          · simp only [operation, hself, hfriend, not_false_eq_true, if_true, if_false]
  | deleteFriend user friend =>
      refine Or.inl (pending_call fun w _ => Or.inl ⟨_, _, rfl, Or.inr ⟨rfl, ?_⟩⟩)
      exact answers_pure (calm_of_plain (plain_removeFriendPostsFromFeed _ _)) rfl
  | rebuildFeed user nonce =>
      refine Settled.fulfils_idle (settled_of_reads ?_)
      exact (reads_rebuildFeedForUser user nonce).andThen fun n => (within_pure _).forget
  | getFeed user nonce offset limit =>
      refine Settled.fulfils_idle (settled_of_reads ?_)
      show (Feed.getFeed cfg user nonce offset limit).Within _ _ _
      unfold Feed.getFeed
      split_ifs
      · exact trivial
      · exact (reads_readItems _ _ _ _).andThen fun items => (within_pure _).forget

/-! ## Handlers and workers at the same time -/

/-- The calls with these numbers, in this order; a delivery is not a call. -/
def inOrder (calls : List Call) (numbers : List Nat) : List Call :=
  numbers.filterMap fun i => calls[i]?

/-- The operations of the threads. -/
def operations (calls : List Call) (i : Nat) : Operation Database PyError Response :=
  (calls[i]?.map Call.operation).getD .idle

variable {calls : List Call} {deliveries : List Delivery} {schedule : List Nat}
  {final : Pool Command PyError World Response}

theorem operations_of_getElem? {i : Nat} {c : Call} (hc : calls[i]? = some c) :
    operations calls i = c.operation := by
  unfold operations
  rw [hc]
  rfl

theorem users_operations (i : Nat) (db : Database) :
    ((operations calls i).effect db).users = db.users := by
  unfold operations
  cases calls[i]? with
  | none => rfl
  | some c => exact c.users_effect db

/-- Each thread performs the operation of its call; a delivery performs none. -/
theorem concurrently_fulfils (users : List Uuid) (i : Nat) (q : Py Response)
    (hq : (concurrently cfg calls deliveries w).threads[i]? = some q) :
    q.Fulfils (exec order) World.db (fun db => db.users = users) (operations calls i) := by
  obtain ⟨c, hc, rfl⟩ | ⟨hnone, d, -, rfl⟩ := concurrently_thread hq
  · rw [operations_of_getElem? hc]
    exact c.fulfils order cfg users
  · unfold operations
    rw [hnone]
    refine Settled.fulfils_idle (settled_of_reads ?_)
    exact (compositional_within fun _ _ hc => hc.1).deliveryProgram
      (fun _ _ _ => (reads_of_calm (calm_fanOutPost _ _ _)).forget) d

/-- The operations in some order do what the calls do one after the other. -/
theorem replay_operations (order : RowOrder) (cfg : Settings) (calls : List Call) (numbers : List Nat)
    (w : World) :
    Operation.replay (operations calls) numbers w.db
      = (w.afterAll order cfg (inOrder calls numbers)).db := by
  induction numbers generalizing w with
  | nil => rfl
  | cons i numbers ih =>
      show Operation.replay (operations calls) numbers ((operations calls i).effect w.db) = _
      unfold inOrder
      cases hc : calls[i]? with
      | none =>
          rw [List.filterMap_cons_none hc]
          unfold operations
          rw [hc]
          exact ih w
      | some c =>
          rw [List.filterMap_cons_some hc, operations_of_getElem? hc]
          have hafter : (w.after order cfg c).db = c.operation.effect w.db :=
            ((c.fulfils order cfg w.db.users).run rfl).1
          rw [← hafter]
          exact ih (w.after order cfg c)

/-- **The tables are linearizable.** However the commands of handlers and workers interleave, the tables
are what the calls that have taken effect make of them one after the other, in an order that keeps to the
order of calls that did not overlap; and each writing call that has ended has ended as it does in that
sequence. -/
theorem tables_linearizable (order : RowOrder) (cfg : Settings) (calls : List Call)
    (deliveries : List Delivery) (w : World)
    (hrun : HighLoad.exec (Pool.step (exec order)) schedule (concurrently cfg calls deliveries w)
      = some final) :
    ∃ numbers : List Nat, numbers.Nodup ∧
      (∀ i r, final.outcome i = some r → i ∈ numbers) ∧
      Pool.Precedes (exec order) (concurrently cfg calls deliveries w) schedule numbers ∧
      final.state.db = (w.afterAll order cfg (inOrder calls numbers)).db ∧
      ∀ before i after c r, numbers = before ++ i :: after → calls[i]? = some c →
        c.writes = true → final.outcome i = some r →
        r = ((c.program cfg).run (exec order) (w.afterAll order cfg (inOrder calls before))).1 := by
  obtain ⟨numbers, hfinal, hprecedes⟩ := Pool.linearizable (I := fun db => db.users = w.db.users)
    (fun i db hdb => (users_operations i db).trans hdb) rfl
    (concurrently_fulfils w.db.users) hrun
  refine ⟨numbers, hfinal.nodup, fun i r => hfinal.mem_of_ended, hprecedes, ?_, ?_⟩
  · exact hfinal.datum.trans (replay_operations order cfg calls numbers w)
  · intro before i after c r hsplit hc hwrites hr
    have hreplay := replay_operations order cfg calls before w
    have hanswers := hfinal.answers hsplit hr
    rw [show (concurrently cfg calls deliveries w).state = w from rfl, operations_of_getElem? hc,
      hreplay] at hanswers
    have hrun' := ((c.fulfils order cfg _).run
      (s := w.afterAll order cfg (inOrder calls before)) rfl).2
    -- a call that writes has one answer
    obtain ⟨r', hr'⟩ : ∃ r', c.operation.answer (w.afterAll order cfg (inOrder calls before)).db
        = some r' := by
      cases c <;> first | exact ⟨_, rfl⟩ | cases hwrites
    rw [hanswers r' hr', hrun' r' hr']

/-- User 2 deletes a post that is not there yet, creates it, and deletes it again; user 1 adds user 2. -/
def overlappingCalls : List Call :=
  [.createPost (.ofNat 2) "d" (.ofNat 14) (noonOf 4 fourth_day),
    .deletePost (.ofNat 2) (.ofNat 14) (noonOf 4 fourth_day), .setFriend (.ofNat 1) (.ofNat 2),
    .deletePost (.ofNat 2) (.ofNat 14) (noonOf 4 fourth_day)]

/-- These calls, and a worker that handles a deletion. -/
def overlapping : Pool Command PyError World Response :=
  concurrently {} overlappingCalls [.event ⟨"deleted", .ofNat 14, .ofNat 2, noonOf 4 fourth_day⟩]
    (World.ofUsers [.ofNat 1, .ofNat 2])

/-- The first deletion fails before the creation begins; all else overlaps. -/
def overlap : List Nat := [1, 2, 0, 2, 0, 4, 3, 0, 2, 3, 0, 0, 4, 0, 3, 3]

theorem overlap_runs : (HighLoad.exec (Pool.step (exec someOrder)) overlap overlapping).isSome
    = true := by
  decide +kernel

theorem overlap_begins : (HighLoad.exec (Pool.step (exec someOrder)) [1] overlapping).isSome
    = true := by
  decide +kernel

theorem tables_linearizable_overlapping : ∃ numbers : List Nat, [1, 0].Sublist numbers ∧
    ((HighLoad.exec (Pool.step (exec someOrder)) overlap overlapping).get overlap_runs).state.db
      = ((World.ofUsers [.ofNat 1, .ofNat 2]).afterAll someOrder {}
          (inOrder overlappingCalls numbers)).db := by
  obtain ⟨numbers, -, hended, hprecedes, hdb, -⟩ := tables_linearizable someOrder {}
    overlappingCalls [.event ⟨"deleted", .ofNat 14, .ofNat 2, noonOf 4 fourth_day⟩]
    (World.ofUsers [.ofNat 1, .ofNat 2]) (Option.some_get overlap_runs).symm
  refine ⟨numbers, ?_, hdb⟩
  refine hprecedes [1] _ _ 1 0 rfl (Option.some_get overlap_begins).symm (by decide +kernel) rfl
    (by decide) ?_
  exact hended 0 (.ok (.postId (.ofNat 14))) (by decide +kernel)

/-- **What a user owns.** In every state of every run, a user who makes no call has the same posts as at
the start and has added the same friends. -/
theorem tables_owned (order : RowOrder) (cfg : Settings) (calls : List Call)
    (deliveries : List Delivery) (w : World) (u : Uuid) (hothers : ∀ c ∈ calls, c.caller ≠ u)
    (hrun : HighLoad.exec (Pool.step (exec order)) schedule (concurrently cfg calls deliveries w)
      = some final) :
    final.state.db.posts.filter (fun p => p.authorId = u) = w.db.posts.filter (fun p => p.authorId = u) ∧
      ∀ v, final.state.db.Follows u v ↔ w.db.Follows u v := by
  obtain ⟨numbers, hfinal, -⟩ := Pool.linearizable (I := fun db => db.users = w.db.users)
    (fun i db hdb => (users_operations i db).trans hdb) rfl
    (concurrently_fulfils w.db.users) hrun
  have hdatum : final.state.db = Operation.replay (operations calls) numbers w.db := hfinal.datum
  rw [hdatum]
  generalize w.db = db
  clear hfinal hdatum
  induction numbers generalizing db with
  | nil => exact ⟨rfl, fun v => Iff.rfl⟩
  | cons i numbers ih =>
      obtain ⟨hposts, hfollows⟩ := ih ((operations calls i).effect db)
      have hstep : ((operations calls i).effect db).posts.filter (fun p => p.authorId = u)
            = db.posts.filter (fun p => p.authorId = u) ∧
          ∀ v, ((operations calls i).effect db).Follows u v ↔ db.Follows u v := by
        cases hc : calls[i]? with
        | none =>
            unfold operations
            rw [hc]
            exact ⟨rfl, fun v => Iff.rfl⟩
        | some c =>
            rw [operations_of_getElem? hc]
            exact c.owned_effect (hothers c (List.mem_of_getElem? hc)) db
      exact ⟨hposts.trans hstep.1, fun v => (hfollows v).trans (hstep.2 v)⟩

/-- The tables in which user 3 has a post and has added user 2. -/
def thirdUser : World :=
  (World.ofUsers [.ofNat 1, .ofNat 2, .ofNat 3]).afterAll someOrder {}
    [.createPost (.ofNat 3) "c" (.ofNat 13) (noonOf 3 third_day), .setFriend (.ofNat 3) (.ofNat 2)]

theorem overlap_runs_thirdUser : (HighLoad.exec (Pool.step (exec someOrder)) overlap
    (concurrently {} overlappingCalls [.event ⟨"deleted", .ofNat 14, .ofNat 2, noonOf 4 fourth_day⟩]
      thirdUser)).isSome = true := by
  decide +kernel

theorem tables_owned_thirdUser :
    let final := ((HighLoad.exec (Pool.step (exec someOrder)) overlap
      (concurrently {} overlappingCalls
        [.event ⟨"deleted", .ofNat 14, .ofNat 2, noonOf 4 fourth_day⟩] thirdUser)).get
          overlap_runs_thirdUser).state
    final.db.posts.filter (fun p => p.authorId = .ofNat 3)
        = [⟨.ofNat 13, .ofNat 3, "c", noonOf 3 third_day⟩] ∧
      final.db.Follows (.ofNat 3) (.ofNat 2) := by
  obtain ⟨hposts, hfollows⟩ := tables_owned someOrder {} overlappingCalls
    [.event ⟨"deleted", .ofNat 14, .ofNat 2, noonOf 4 fourth_day⟩] thirdUser (.ofNat 3)
    (by decide +kernel) (Option.some_get overlap_runs_thirdUser).symm
  have hstart : thirdUser.db.posts.filter (fun p => p.authorId = .ofNat 3)
      = [⟨.ofNat 13, .ofNat 3, "c", noonOf 3 third_day⟩] := by
    decide +kernel
  have hfriend : thirdUser.db.Follows (.ofNat 3) (.ofNat 2) := by decide +kernel
  exact ⟨hposts.trans hstart, (hfollows (.ofNat 2)).mpr hfriend⟩

end HighLoad.Feed
