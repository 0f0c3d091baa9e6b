/-
# HighLoad.Users.Auth — registration, login and tokens (`app/auth.py`, `app/routes/users.py`)

Requests run concurrently over the table `users`. `register_user` looks for the email and inserts the
row with its next command, so two of them can both find it free; the unique column decides. A login
that succeeds carries the id of an account whose password it verified, and both ways to authenticate
read that id back until the token expires (`tokens_name_their_account`). Whoever has registered can log
in from then on (`registered_can_login`).
-/
import HighLoad.TextParse
import HighLoad.Lib.Interleave
import HighLoad.Users.Search

namespace HighLoad.Users

open Prog

/-! ## The libraries -/

/-- The claims of a token: `sub`, when there is one, and `exp` in seconds. -/
structure Payload where
  sub : Option String
  exp : Nat
  deriving DecidableEq

/-- PyJWT under the secret and the algorithm of the settings. `decode` takes the time in microseconds;
`none` is a `PyJWTError`. A token verifies under the secret it was signed with until it expires. -/
structure Jwt (Token : Type) where
  encode : Payload → Token
  decode : Nat → Token → Option Payload
  decode_encode : ∀ now payload, decode now (encode payload)
    = if now < payload.exp * 1000000 then some payload else none

/-- bcrypt; a salt is what `gensalt()` returned, and `none` is a `ValueError`. A password passes the
check against its own hash. -/
structure Bcrypt where
  hashpw : String → String → Option String
  checkpw : String → String → Option Bool
  checkpw_hashpw : ∀ {password salt hash}, hashpw password salt = some hash →
    checkpw password hash = some true

variable {Token : Type} (jwt : Jwt Token) (bcrypt : Bcrypt)

/-! ## Tokens -/

/-- `create_access_token(user_id)` at a time in microseconds; `exp` is cut to seconds. -/
def createAccessToken (expireMinutes now : Nat) (userId : String) : Token :=
  jwt.encode ⟨some userId, (now + expireMinutes * 60 * 1000000) / 1000000⟩

/-- `decode_access_token(token)`. -/
def decodeAccessToken (now : Nat) (token : Token) : Option String :=
  match jwt.decode now token with
  | some payload => payload.sub
  | none => none

/-- `get_current_user`. -/
def getCurrentUser (now : Nat) (token : Token) : Except PyError Uuid :=
  match decodeAccessToken jwt now token with
  | none => .error (.httpException 401 "Invalid or expired token")
  | some userId =>
      match Uuid.parse userId with
      | some id => .ok id
      | none => .error (.httpException 401 "Malformed token subject")

/-- `authenticate_ws(token)`. -/
def authenticateWs (now : Nat) (token : Token) : Option Uuid :=
  match decodeAccessToken jwt now token with
  | none => none
  | some userId => Uuid.parse userId

/-- A socket is let in exactly when a request is, as the same user. -/
theorem authenticateWs_eq_some_iff {now : Nat} {token : Token} {id : Uuid} :
    authenticateWs jwt now token = some id ↔ getCurrentUser jwt now token = .ok id := by
  unfold authenticateWs getCurrentUser
  cases decodeAccessToken jwt now token with
  | none => simp
  | some userId =>
      dsimp only
      cases Uuid.parse userId <;> simp

/-- **A token authenticates the user it was created for, until it expires.** -/
theorem getCurrentUser_createAccessToken (expireMinutes issued now : Nat) (id : Uuid) :
    getCurrentUser jwt now (createAccessToken jwt expireMinutes issued id.str)
      = if now < (issued + expireMinutes * 60 * 1000000) / 1000000 * 1000000 then .ok id
        else .error (.httpException 401 "Invalid or expired token") := by
  unfold getCurrentUser decodeAccessToken createAccessToken
  rw [jwt.decode_encode]
  split_ifs
  · simp only [Uuid.parse_str]
  · rfl

/-! ## The table `users` -/

/-- `UserRegister`. -/
structure UserRegister where
  email : String
  password : String
  firstName : String
  lastName : String
  birthdate : Date
  gender : String
  interests : Option String
  city : String
  deriving DecidableEq

/-- A row of `users`. -/
structure Account where
  id : Uuid
  email : String
  passwordHash : String
  firstName : String
  lastName : String
  birthdate : Date
  gender : String
  interests : Option String
  city : String
  deriving DecidableEq

/-- The row that a registration inserts. -/
def UserRegister.account (user : UserRegister) (id : Uuid) (passwordHash : String) : Account where
  id := id
  email := user.email
  passwordHash := passwordHash
  firstName := user.firstName
  lastName := user.lastName
  birthdate := user.birthdate
  gender := user.gender
  interests := user.interests
  city := user.city

/-- The columns hold the values: the lengths of the `VARCHAR`s. -/
def Account.Fits (a : Account) : Prop :=
  a.email.length ≤ 255 ∧ a.passwordHash.length ≤ 255 ∧ a.firstName.length ≤ 100 ∧
    a.lastName.length ≤ 100 ∧ a.gender.length ≤ 20 ∧ a.city.length ≤ 100

instance (a : Account) : Decidable a.Fits := inferInstanceAs (Decidable (_ ∧ _))

/-- The table `users` with its primary key and its unique column. -/
structure AccountsTable where
  rows : List Account
  nodup_ids : (rows.map Account.id).Nodup
  nodup_emails : (rows.map Account.email).Nodup

namespace AccountsTable

/-- The row with an email. -/
def byEmail (t : AccountsTable) (email : String) : Option Account := t.rows.find? (·.email = email)

/-- A row that violates no constraint. -/
def Accepts (t : AccountsTable) (a : Account) : Prop :=
  a.id ∉ t.rows.map Account.id ∧ a.email ∉ t.rows.map Account.email

instance (t : AccountsTable) (a : Account) : Decidable (t.Accepts a) :=
  inferInstanceAs (Decidable (_ ∧ _))

def insert (t : AccountsTable) (a : Account) (h : t.Accepts a) : AccountsTable where
  rows := t.rows ++ [a]
  nodup_ids := by
    rw [List.map_append, List.nodup_append]
    refine ⟨t.nodup_ids, List.nodup_singleton _, fun id hid id' hid' => ?_⟩
    rw [List.map_singleton, List.mem_singleton] at hid'
    rintro rfl
    exact h.1 (hid' ▸ hid)
  nodup_emails := by
    rw [List.map_append, List.nodup_append]
    refine ⟨t.nodup_emails, List.nodup_singleton _, fun email hemail email' hemail' => ?_⟩
    rw [List.map_singleton, List.mem_singleton] at hemail'
    rintro rfl
    exact h.2 (hemail' ▸ hemail)

variable {t : AccountsTable} {a : Account} {email : String}

theorem byEmail_eq_some_iff : t.byEmail email = some a ↔ a ∈ t.rows ∧ a.email = email := by
  constructor
  · intro h
    exact ⟨List.mem_of_find?_eq_some h, by simpa using List.find?_some h⟩
  · rintro ⟨hmem, rfl⟩
    have hsome : (t.byEmail a.email).isSome := List.find?_isSome.mpr ⟨a, hmem, by simp⟩
    obtain ⟨b, hb⟩ := Option.isSome_iff_exists.mp hsome
    have hemail : b.email = a.email := by simpa using List.find?_some hb
    rw [hb, List.inj_on_of_nodup_map t.nodup_emails (List.mem_of_find?_eq_some hb) hmem hemail]

end AccountsTable

/-! ## The handlers -/

/-- The statements of the handlers. -/
inductive AccountCommand : Type → Type where
  | selectId (email : String) : AccountCommand (Option Uuid)
  | selectCredentials (email : String) : AccountCommand (Option (Uuid × String))
  | insertUser (row : Account) : AccountCommand (Option Uuid)

/-- What a statement does to the table. -/
def executeAccount : Handler AccountCommand PyError AccountsTable
  | _, .selectId email, t => .ok ((t.byEmail email).map Account.id, t)
  | _, .selectCredentials email, t =>
      .ok ((t.byEmail email).map fun a => (a.id, a.passwordHash), t)
  | _, .insertUser row, t =>
      if row.Fits then
        if h : t.Accepts row then .ok (some row.id, t.insert row h)
        else .error (.integrityError "duplicate key value violates unique constraint")
      else .error (.databaseError "value too long for type character varying")

abbrev AccountProg (α : Type) := Prog AccountCommand PyError α

/-- `register_user`, once the email was not found. -/
def insertAccount (user : UserRegister) (salt : String) (id : Uuid) : AccountProg Uuid :=
  match bcrypt.hashpw user.password salt with
  | none => raise (.valueError "password cannot be longer than 72 bytes")
  | some passwordHash => do
      let row ← call (.insertUser (user.account id passwordHash))
      match row with
      | none => raise (.httpException 500 "Failed to create user")
      | some id => pure id

/-- `register_user(user)`; `salt` and `id` are what `gensalt()` and `gen_random_uuid()` return. -/
def registerUser (user : UserRegister) (salt : String) (id : Uuid) : AccountProg Uuid := do
  let existing ← call (.selectId user.email)
  match existing with
  | some _ => raise (.httpException 400 "Email already registered")
  | none => insertAccount bcrypt user salt id

/-- `verify_password` on the row of `login`, and the token. -/
def checkCredentials (expireMinutes now : Nat) (password : String) :
    Option (Uuid × String) → AccountProg Token
  | none => raise (.httpException 401 "Invalid email or password")
  | some (id, passwordHash) =>
      match bcrypt.checkpw password passwordHash with
      | none => raise (.valueError "Invalid salt")
      | some false => raise (.httpException 401 "Invalid email or password")
      | some true => pure (createAccessToken jwt expireMinutes now id.str)

/-- `login(credentials)`; the token is created at `now`. -/
def login (expireMinutes now : Nat) (email password : String) : AccountProg Token := do
  let row ← call (.selectCredentials email)
  checkCredentials jwt bcrypt expireMinutes now password row

/-! ## Concurrent requests -/

/-- A request, with what the environment supplies to it. -/
inductive Request where
  | register (user : UserRegister) (salt : String) (id : Uuid)
  | login (email password : String) (now : Nat)
  deriving DecidableEq

/-- `RegisterResponse` or `TokenResponse`. -/
inductive Response (Token : Type) where
  | registered (userId : Uuid)
  | token (accessToken : Token)
  deriving DecidableEq

/-- The handler of a request. -/
def Request.serve (expireMinutes : Nat) : Request → AccountProg (Response Token)
  | .register user salt id => do
      let userId ← registerUser bcrypt user salt id
      pure (.registered userId)
  | .login email password now => do
      let token ← Users.login jwt bcrypt expireMinutes now email password
      pure (.token token)

/-- The requests, before any of their statements. -/
def served (expireMinutes : Nat) (requests : List Request) (start : AccountsTable) :
    Pool AccountCommand PyError AccountsTable (Response Token) :=
  ⟨requests.map (Request.serve jwt bcrypt expireMinutes), start⟩

/-! ## What a run of the requests keeps -/

/-- The accounts that registrations have inserted, with the number of the request. -/
structure Winner where
  request : Nat
  account : Account

/-- The row is the one that this registration inserts. -/
def Request.Inserts (bcrypt : Bcrypt) (a : Account) : Request → Prop
  | .register user salt id => ∃ passwordHash, bcrypt.hashpw user.password salt = some passwordHash ∧
      a = user.account id passwordHash
  | .login .. => False

/-- The account that a login found, with a password that passes the check. -/
def Verified (bcrypt : Bcrypt) (t : AccountsTable) (email password : String) (a : Account) : Prop :=
  a ∈ t.rows ∧ a.email = email ∧ bcrypt.checkpw password a.passwordHash = some true

/-- Where the program of a request is. -/
inductive Stage (expireMinutes : Nat) (t : AccountsTable) (winners : List Winner) (i : Nat) :
    Request → AccountProg (Response Token) → Prop
  | waiting (r : Request) : Stage expireMinutes t winners i r (r.serve jwt bcrypt expireMinutes)
  | inserting (user : UserRegister) (salt : String) (id : Uuid) :
      Stage expireMinutes t winners i (.register user salt id) (do
        let userId ← insertAccount bcrypt user salt id
        pure (.registered userId))
  | registered (r : Request) (a : Account) (hwinner : ⟨i, a⟩ ∈ winners) :
      Stage expireMinutes t winners i r (.ret (.registered a.id))
  | loggedIn (email password : String) (now : Nat) (a : Account)
      (hverified : Verified bcrypt t email password a) :
      Stage expireMinutes t winners i (.login email password now)
        (.ret (.token (createAccessToken jwt expireMinutes now a.id.str)))
  | refused (r : Request) (e : PyError) : Stage expireMinutes t winners i r (.raise e)

/-- The invariant: the table is the one of the start and the accounts of the winners, one for each
registration that has returned. -/
structure Tracked (expireMinutes : Nat) (requests : List Request) (start : AccountsTable)
    (p : Pool AccountCommand PyError AccountsTable (Response Token)) (winners : List Winner) : Prop where
  rows : p.state.rows = start.rows ++ winners.map Winner.account
  distinct : (winners.map Winner.request).Nodup
  returned : ∀ x ∈ winners, p.threads[x.request]? = some (.ret (.registered x.account.id)) ∧
    ∃ r, requests[x.request]? = some r ∧ r.Inserts bcrypt x.account
  threads : ∀ (i : Nat) q, p.threads[i]? = some q → ∃ r, requests[i]? = some r ∧
    Stage jwt bcrypt expireMinutes p.state winners i r q

section

variable {jwt bcrypt} {expireMinutes i : Nat} {requests : List Request} {start t t' : AccountsTable}
  {winners winners' : List Winner} {r : Request}

theorem Stage.mono {q : AccountProg (Response Token)}
    (h : Stage jwt bcrypt expireMinutes t winners i r q) (hrows : ∀ a ∈ t.rows, a ∈ t'.rows)
    (hwinners : ∀ x ∈ winners, x ∈ winners') :
    Stage jwt bcrypt expireMinutes t' winners' i r q := by
  cases h with
  | waiting => exact .waiting r
  | inserting user salt id => exact .inserting user salt id
  | registered _ a hwinner => exact .registered r a (hwinners _ hwinner)
  | loggedIn email password now a hverified =>
      exact .loggedIn email password now a ⟨hrows a hverified.1, hverified.2⟩
  | refused _ e => exact .refused r e

theorem tracked_served (jwt : Jwt Token) (bcrypt : Bcrypt) (expireMinutes : Nat)
    (requests : List Request) (start : AccountsTable) :
    Tracked jwt bcrypt expireMinutes requests start
      (served jwt bcrypt expireMinutes requests start) [] where
  rows := (List.append_nil _).symm
  distinct := List.nodup_nil
  returned x hx := absurd hx List.not_mem_nil
  threads i q hq := by
    rw [served, List.getElem?_map, Option.map_eq_some_iff] at hq
    obtain ⟨r, hr, rfl⟩ := hq
    exact ⟨r, hr, .waiting r⟩

/-- What the next command of a request can lead to: a later stage over the same table, or its row
inserted. -/
theorem Stage.command {β : Type} {c : AccountCommand β}
    {next : Except PyError β → AccountProg (Response Token)}
    (h : Stage jwt bcrypt expireMinutes t winners i r (.cmd c next)) :
    (∀ e, Stage jwt bcrypt expireMinutes t winners i r (next (.error e))) ∧
      ∀ b t', executeAccount β c t = .ok (b, t') →
        (t' = t ∧ Stage jwt bcrypt expireMinutes t winners i r (next (.ok b))) ∨
        ∃ a, t'.rows = t.rows ++ [a] ∧ r.Inserts bcrypt a ∧
          next (.ok b) = .ret (.registered a.id) := by
  generalize hq : (Prog.cmd c next : AccountProg (Response Token)) = q at h
  cases h with
  | waiting =>
      cases r with
      | register user salt id =>
          cases hq
          refine ⟨fun e => .refused _ e, fun b t' hexec => Or.inl ?_⟩
          obtain ⟨rfl, rfl⟩ : (t.byEmail user.email).map Account.id = b ∧ t = t' := by
            simpa [executeAccount] using hexec
          refine ⟨rfl, ?_⟩
          cases t.byEmail user.email with
          | some a => exact .refused _ _
          | none => exact .inserting user salt id
      | login email password now =>
          cases hq
          refine ⟨fun e => .refused _ e, fun b t' hexec => Or.inl ?_⟩
          obtain ⟨rfl, rfl⟩ : (t.byEmail email).map (fun a => (a.id, a.passwordHash)) = b ∧ t = t' := by
            simpa [executeAccount] using hexec
          refine ⟨rfl, ?_⟩
          cases ha : t.byEmail email with
          | none => exact .refused _ _
          | some a =>
              obtain ⟨hmem, hemail⟩ := AccountsTable.byEmail_eq_some_iff.mp ha
              show Stage jwt bcrypt expireMinutes t winners i _
                (checkCredentials jwt bcrypt expireMinutes now password (some (a.id, a.passwordHash))
                  >>= fun token => pure (.token token))
              cases hcheck : bcrypt.checkpw password a.passwordHash with
              | none =>
                  simp only [checkCredentials, hcheck]
                  exact .refused _ _
              | some passes =>
                  simp only [checkCredentials, hcheck]
                  cases passes with
                  | false => exact .refused _ _
                  | true => exact .loggedIn email password now a ⟨hmem, hemail, hcheck⟩
  | inserting user salt id =>
      unfold insertAccount at hq
      cases hhash : bcrypt.hashpw user.password salt with
      | none =>
          rw [hhash] at hq
          cases hq
      | some passwordHash =>
          rw [hhash] at hq
          cases hq
          refine ⟨fun e => .refused _ e, fun b t' hexec => Or.inr ?_⟩
          simp only [executeAccount] at hexec
          split_ifs at hexec with hfits haccepts
          obtain ⟨rfl, rfl⟩ := Prod.mk.inj (Except.ok.inj hexec)
          exact ⟨user.account id passwordHash, rfl, ⟨passwordHash, hhash, rfl⟩, rfl⟩
  | registered _ a hwinner => cases hq
  | loggedIn email password now a hverified => cases hq
  | refused _ e => cases hq

variable {p p' : Pool AccountCommand PyError AccountsTable (Response Token)}

/-- **The step lemma.** -/
theorem Tracked.step (h : Tracked jwt bcrypt expireMinutes requests start p winners)
    (hstep : Pool.step executeAccount i p = some p') :
    ∃ winners', (∀ x ∈ winners, x ∈ winners') ∧
      Tracked jwt bcrypt expireMinutes requests start p' winners' := by
  obtain ⟨β, c, next, hi, hcase⟩ := Pool.step_cases hstep
  obtain ⟨r, hr, hstage⟩ := h.threads i _ hi
  obtain ⟨herror, hok⟩ := hstage.command
  -- nobody who has returned takes a step
  have hother : ∀ q, ∀ x ∈ winners, (p.threads.set i q)[x.request]?
      = some (.ret (.registered x.account.id)) := by
    intro q x hx
    have hreturned := (h.returned x hx).1
    rw [List.getElem?_set_ne, hreturned]
    rintro rfl
    rw [hi] at hreturned
    cases hreturned
  have hset : ∀ q (j : Nat) q', (p.threads.set i q)[j]? = some q' →
      (j = i ∧ q' = q) ∨ p.threads[j]? = some q' := by
    intro q j q' hj
    rw [List.getElem?_set] at hj
    split_ifs at hj with hij hlt
    · exact Or.inl ⟨hij.symm, (Option.some.inj hj).symm⟩
    · exact Or.inr hj
  have hsame : ∀ q, Stage jwt bcrypt expireMinutes p.state winners i r q →
      Tracked jwt bcrypt expireMinutes requests start ⟨p.threads.set i q, p.state⟩ winners := by
    intro q hq
    refine ⟨h.rows, h.distinct, fun x hx => ⟨hother q x hx, (h.returned x hx).2⟩, ?_⟩
    intro j q' hj
    rcases hset q j q' hj with ⟨rfl, rfl⟩ | hj
    · exact ⟨r, hr, hq⟩
    · exact h.threads j q' hj
  rcases hcase with ⟨b, t', hexec, rfl⟩ | ⟨e, -, rfl⟩
  · rcases hok b t' hexec with ⟨rfl, hq⟩ | ⟨a, hrows, hinserts, hq⟩
    · exact ⟨winners, fun x hx => hx, hsame _ hq⟩
    · have hnew : i ∉ winners.map Winner.request := by
        intro hmem
        obtain ⟨x, hx, rfl⟩ := List.mem_map.mp hmem
        have hreturned := (h.returned x hx).1
        rw [hi] at hreturned
        cases hreturned
      refine ⟨winners ++ [⟨i, a⟩], fun x hx => List.mem_append_left _ hx, ?_, ?_, ?_, ?_⟩
      · rw [hrows, h.rows, List.map_append, List.append_assoc]
        rfl
      · rw [List.map_append, List.nodup_append]
        refine ⟨h.distinct, List.nodup_singleton _, fun j hj k hk => ?_⟩
        rw [List.map_singleton, List.mem_singleton] at hk
        rw [hk]
        rintro rfl
        exact hnew hj
      · intro x hx
        rcases List.mem_append.mp hx with hx | hx
        · exact ⟨hother _ x hx, (h.returned x hx).2⟩
        · obtain rfl := List.mem_singleton.mp hx
          refine ⟨?_, r, hr, hinserts⟩
          rw [hq, List.getElem?_set_self (List.getElem?_eq_some_iff.mp hi).1]
      · intro j q' hj
        rcases hset _ j q' hj with ⟨rfl, rfl⟩ | hj
        · refine ⟨r, hr, ?_⟩
          rw [hq]
          exact .registered r a (List.mem_append_right _ List.mem_cons_self)
        · obtain ⟨r', hr', hstage'⟩ := h.threads j q' hj
          refine ⟨r', hr', hstage'.mono (fun a ha => ?_) fun x hx => List.mem_append_left _ hx⟩
          rw [hrows]
          exact List.mem_append_left _ ha
  · exact ⟨winners, fun x hx => hx, hsame _ (herror e)⟩

/-- The run lemma. -/
theorem Tracked.exec (h : Tracked jwt bcrypt expireMinutes requests start p winners)
    {schedule : List Nat} (hexec : exec (Pool.step executeAccount) schedule p = some p') :
    ∃ winners', (∀ x ∈ winners, x ∈ winners') ∧
      Tracked jwt bcrypt expireMinutes requests start p' winners' := by
  refine exec_invariant (P := fun p' => ∃ winners', (∀ x ∈ winners, x ∈ winners') ∧
    Tracked jwt bcrypt expireMinutes requests start p' winners') ?_ ⟨winners, fun x hx => hx, h⟩ hexec
  rintro j - q q' ⟨winners₁, hsub₁, h₁⟩ hstep
  obtain ⟨winners₂, hsub₂, h₂⟩ := h₁.step hstep
  exact ⟨winners₂, fun x hx => hsub₂ x (hsub₁ x hx), h₂⟩

/-- A thread that has ended with an outcome. -/
theorem thread_of_outcome {a : Response Token} (h : p.outcome i = some (.ok a)) :
    p.threads[i]? = some (.ret a) := by
  obtain ⟨q, hq, hout⟩ := Option.bind_eq_some_iff.mp h
  cases q with
  | ret b =>
      obtain rfl : b = a := Except.ok.inj (Option.some.inj hout)
      exact hq
  | raise e => cases hout
  | cmd c next => cases hout

/-- A request that has returned its user is one of the winners. -/
theorem Tracked.winner (h : Tracked jwt bcrypt expireMinutes requests start p winners) {id : Uuid}
    (hi : p.outcome i = some (.ok (.registered id))) : ∃ a, ⟨i, a⟩ ∈ winners ∧ a.id = id := by
  obtain ⟨r, -, hstage⟩ := h.threads i _ (thread_of_outcome hi)
  generalize hq : (Prog.ret (.registered id) : AccountProg (Response Token)) = q at hstage
  cases hstage with
  | waiting => cases r <;> cases hq
  | inserting user salt id' =>
      unfold insertAccount at hq
      cases hhash : bcrypt.hashpw user.password salt with
      | none =>
          rw [hhash] at hq
          cases hq
      | some passwordHash =>
          rw [hhash] at hq
          cases hq
  | registered _ a hwinner =>
      cases hq
      exact ⟨a, hwinner, rfl⟩
  | loggedIn email password now a hverified => cases hq
  | refused _ e => cases hq

theorem Winner.mem_rows (h : Tracked jwt bcrypt expireMinutes requests start p winners) {x : Winner}
    (hx : x ∈ winners) : x.account ∈ p.state.rows := by
  rw [h.rows]
  exact List.mem_append_right _ (List.mem_map_of_mem hx)

end

/-! ## Two registrations of one email -/

/-- Tokens that are their claims. -/
def plainJwt : Jwt Payload where
  encode payload := payload
  decode now payload := if now < payload.exp * 1000000 then some payload else none
  decode_encode _ _ := rfl

/-- One password, its salt and its hash. -/
def onePassword : Bcrypt where
  hashpw password salt :=
    if password = "U*U" ∧ salt = "$2a$05$CCCCCCCCCCCCCCCCCCCCC." then
      some "$2a$05$CCCCCCCCCCCCCCCCCCCCC.E5YPO9kmyuRGyh0XouQYb4YMJKvyOeW"
    else none
  checkpw password hash :=
    some (password = "U*U" ∧ hash = "$2a$05$CCCCCCCCCCCCCCCCCCCCC.E5YPO9kmyuRGyh0XouQYb4YMJKvyOeW")
  checkpw_hashpw := by
    intro password salt hash h
    split_ifs at h with hpassword
    rw [← Option.some.inj h]
    simp [hpassword.1]

def oneUser : UserRegister where
  email := "a@b.c"
  password := "U*U"
  firstName := "A"
  lastName := "B"
  birthdate := ⟨2000, 1, 1⟩
  gender := "f"
  interests := none
  city := "C"

/-- Two registrations of one email, and a login. -/
def twiceRegistered : List Request :=
  [.register oneUser "$2a$05$CCCCCCCCCCCCCCCCCCCCC." (.ofNat 1),
    .register oneUser "$2a$05$CCCCCCCCCCCCCCCCCCCCC." (.ofNat 2), .login "a@b.c" "U*U" 0]

def noAccounts : AccountsTable := ⟨[], List.nodup_nil, List.nodup_nil⟩

theorem exec_twiceRegistered : ∃ p, exec (Pool.step executeAccount) [0, 1, 0, 1, 2]
    (served plainJwt onePassword 60 twiceRegistered noAccounts) = some p ∧
      p.outcome 0 = some (.ok (.registered (.ofNat 1))) ∧
      p.outcome 2 = some (.ok (.token ⟨some (Uuid.ofNat 1).str, 3600⟩)) := by
  have hrun : (exec (Pool.step executeAccount) [0, 1, 0, 1, 2]
      (served plainJwt onePassword 60 twiceRegistered noAccounts)).map
        (fun p => (p.outcome 0, p.outcome 2)) = some (some (.ok (.registered (.ofNat 1))),
          some (.ok (.token ⟨some (Uuid.ofNat 1).str, 3600⟩))) := by decide +kernel
  obtain ⟨p, hp, hout⟩ := Option.map_eq_some_iff.mp hrun
  exact ⟨p, hp, (Prod.mk.inj hout).1, (Prod.mk.inj hout).2⟩

/-! ## The main results -/

variable {expireMinutes : Nat} {requests : List Request} {start : AccountsTable} {schedule : List Nat}
  {p : Pool AccountCommand PyError AccountsTable (Response Token)}

/-- **Two registrations of one email never both succeed**, however their statements interleave, and one
that succeeds did not find the email in the table. -/
theorem one_registration_per_email
    (h : exec (Pool.step executeAccount) schedule (served jwt bcrypt expireMinutes requests start)
      = some p)
    {i : Nat} {user : UserRegister} {salt : String} {id id' : Uuid}
    (hi : requests[i]? = some (.register user salt id))
    (hreturned : p.outcome i = some (.ok (.registered id'))) :
    id' = id ∧ (∃ passwordHash, bcrypt.hashpw user.password salt = some passwordHash ∧
      p.state.byEmail user.email = some (user.account id passwordHash)) ∧
      (∀ a ∈ start.rows, a.email ≠ user.email ∧ a ∈ p.state.rows) ∧
      ∀ (j : Nat) other salt' id₁ id₂, requests[j]? = some (.register other salt' id₁) →
        p.outcome j = some (.ok (.registered id₂)) → other.email = user.email → j = i := by
  obtain ⟨winners, -, htracked⟩ := (tracked_served jwt bcrypt expireMinutes requests start).exec h
  -- the accounts of the winners, by request
  have haccount : ∀ {j : Nat} {user salt id id'}, requests[j]? = some (.register user salt id) →
      p.outcome j = some (.ok (.registered id')) → ∃ passwordHash,
        bcrypt.hashpw user.password salt = some passwordHash ∧
          ⟨j, user.account id passwordHash⟩ ∈ winners ∧ id' = id := by
    intro j user salt id id' hj hout
    obtain ⟨a, hwinner, rfl⟩ := htracked.winner hout
    obtain ⟨-, r, hr, hinserts⟩ := htracked.returned _ hwinner
    obtain rfl := Option.some.inj (hj.symm.trans hr)
    obtain ⟨passwordHash, hhash, rfl⟩ := hinserts
    exact ⟨passwordHash, hhash, hwinner, rfl⟩
  obtain ⟨passwordHash, hhash, hwinner, rfl⟩ := haccount hi hreturned
  have hmem := Winner.mem_rows htracked hwinner
  have hemails : (start.rows.map Account.email ++
      (winners.map Winner.account).map Account.email).Nodup := by
    rw [← List.map_append, ← htracked.rows]
    exact p.state.nodup_emails
  refine ⟨rfl, ⟨passwordHash, hhash, AccountsTable.byEmail_eq_some_iff.mpr ⟨hmem, rfl⟩⟩, ?_, ?_⟩
  · refine fun a ha => ⟨fun heq => ?_, ?_⟩
    · refine (List.nodup_append.mp hemails).2.2 _ (List.mem_map_of_mem ha) _ ?_ heq
      exact List.mem_map_of_mem (List.mem_map_of_mem hwinner)
    · rw [htracked.rows]
      exact List.mem_append_left _ ha
  · intro j other salt' id₁ id₂ hj hout hemail
    obtain ⟨passwordHash', -, hwinner', -⟩ := haccount hj hout
    have hinj : (winners.map fun x => x.account.email).Nodup := by
      have hright := (List.nodup_append.mp hemails).2.1
      rwa [List.map_map] at hright
    have hsame := List.inj_on_of_nodup_map hinj hwinner' hwinner hemail
    exact congrArg Winner.request hsame

theorem one_registration_twiceRegistered : ∃ p, exec (Pool.step executeAccount) [0, 1, 0, 1, 2]
    (served plainJwt onePassword 60 twiceRegistered noAccounts) = some p ∧
      ∀ (j : Nat) other salt id₁ id₂, twiceRegistered[j]? = some (.register other salt id₁) →
        p.outcome j = some (.ok (.registered id₂)) → other.email = oneUser.email → j = 0 := by
  obtain ⟨p, hp, hfirst, -⟩ := exec_twiceRegistered
  exact ⟨p, hp, (one_registration_per_email plainJwt onePassword hp rfl hfirst).2.2.2⟩

/-- **A token names the account whose password was checked**: when a login has returned, an account with
its email verifies its password, and until the token expires both ways to authenticate read back the id
of that account; afterwards neither lets anybody in. -/
theorem tokens_name_their_account
    (h : exec (Pool.step executeAccount) schedule (served jwt bcrypt expireMinutes requests start)
      = some p)
    {i : Nat} {email password : String} {issued : Nat} {token : Token}
    (hi : requests[i]? = some (.login email password issued))
    (hreturned : p.outcome i = some (.ok (.token token))) :
    ∃ a, Verified bcrypt p.state email password a ∧
      (a ∈ start.rows ∨ ∃ (j : Nat) (r : Request), requests[j]? = some r ∧ r.Inserts bcrypt a ∧
        p.outcome j = some (.ok (.registered a.id))) ∧
      ∀ now, (now < (issued + expireMinutes * 60 * 1000000) / 1000000 * 1000000 →
          getCurrentUser jwt now token = .ok a.id ∧ authenticateWs jwt now token = some a.id) ∧
        ((issued + expireMinutes * 60 * 1000000) / 1000000 * 1000000 ≤ now →
          getCurrentUser jwt now token = .error (.httpException 401 "Invalid or expired token") ∧
            authenticateWs jwt now token = none) := by
  obtain ⟨winners, -, htracked⟩ := (tracked_served jwt bcrypt expireMinutes requests start).exec h
  obtain ⟨r, hr, hstage⟩ := htracked.threads i _ (thread_of_outcome hreturned)
  obtain rfl := Option.some.inj (hi.symm.trans hr)
  generalize hq : (Prog.ret (.token token) : AccountProg (Response Token)) = q at hstage
  cases hstage with
  | waiting => cases hq
  | registered _ a hwinner => cases hq
  | refused _ e => cases hq
  | loggedIn _ _ _ a hverified =>
      cases hq
      refine ⟨a, hverified, ?_, fun now => ⟨fun hnow => ?_, fun hnow => ?_⟩⟩
      · have hmem := hverified.1
        rw [htracked.rows] at hmem
        rcases List.mem_append.mp hmem with hold | hnew
        · exact Or.inl hold
        · obtain ⟨x, hx, rfl⟩ := List.mem_map.mp hnew
          obtain ⟨hthread, r, hr, hinserts⟩ := htracked.returned x hx
          refine Or.inr ⟨x.request, r, hr, hinserts, ?_⟩
          unfold Pool.outcome
          rw [hthread]
          rfl
      · have huser := getCurrentUser_createAccessToken jwt expireMinutes issued now a.id
        rw [if_pos hnow] at huser
        exact ⟨huser, (authenticateWs_eq_some_iff jwt).mpr huser⟩
      · have huser := getCurrentUser_createAccessToken jwt expireMinutes issued now a.id
        rw [if_neg (Nat.not_lt.mpr hnow)] at huser
        refine ⟨huser, Option.eq_none_iff_forall_ne_some.mpr fun id hid => ?_⟩
        rw [authenticateWs_eq_some_iff, huser] at hid
        cases hid

theorem tokens_twiceRegistered : ∃ p, exec (Pool.step executeAccount) [0, 1, 0, 1, 2]
    (served plainJwt onePassword 60 twiceRegistered noAccounts) = some p ∧
      ∃ a, Verified onePassword p.state "a@b.c" "U*U" a ∧
        authenticateWs plainJwt 0 ⟨some (Uuid.ofNat 1).str, 3600⟩ = some a.id := by
  obtain ⟨p, hp, -, hthird⟩ := exec_twiceRegistered
  obtain ⟨a, hverified, -, hauth⟩ := tokens_name_their_account plainJwt onePassword hp rfl hthird
  exact ⟨p, hp, a, hverified, ((hauth 0).1 (by decide)).2⟩

/-- A login that finds the account with a password that passes the check. -/
theorem executeAccount_login {t t' : AccountsTable} {a : Account} {password : String} {issued : Nat}
    (hverified : Verified bcrypt t a.email password a) {b : Option (Uuid × String)}
    (h : executeAccount _ (.selectCredentials a.email) t = .ok (b, t')) :
    t' = t ∧ (checkCredentials jwt bcrypt expireMinutes issued password b >>= fun token =>
      (pure (.token token) : AccountProg (Response Token)))
        = .ret (.token (createAccessToken jwt expireMinutes issued a.id.str)) := by
  have ha : t.byEmail a.email = some a := AccountsTable.byEmail_eq_some_iff.mpr ⟨hverified.1, rfl⟩
  obtain ⟨rfl, rfl⟩ : (t.byEmail a.email).map (fun a => (a.id, a.passwordHash)) = b ∧ t = t' := by
    simpa [executeAccount] using h
  refine ⟨rfl, ?_⟩
  rw [ha]
  simp only [Option.map_some, checkCredentials, hverified.2.2]
  rfl

/-- **Whoever has registered can log in**: a login with the email and the password that starts after the
registration has returned ends with a token for the new user, whatever runs beside it. -/
theorem registered_can_login {mid : Pool AccountCommand PyError AccountsTable (Response Token)}
    (hmid : exec (Pool.step executeAccount) schedule (served jwt bcrypt expireMinutes requests start)
      = some mid)
    {i j : Nat} {user : UserRegister} {salt : String} {id : Uuid} {issued : Nat}
    (hi : requests[i]? = some (.register user salt id))
    (hreturned : mid.outcome i = some (.ok (.registered id)))
    (hj : mid.threads[j]?
      = some ((Request.login user.email user.password issued).serve jwt bcrypt expireMinutes))
    {schedule' : List Nat} (h : exec (Pool.step executeAccount) schedule' mid = some p)
    {outcome : Except PyError (Response Token)} (hended : p.outcome j = some outcome) :
    ∃ token, outcome = .ok (.token token) ∧
      ∀ now < (issued + expireMinutes * 60 * 1000000) / 1000000 * 1000000,
        getCurrentUser jwt now token = .ok id := by
  obtain ⟨winners, -, htracked⟩ := (tracked_served jwt bcrypt expireMinutes requests start).exec hmid
  obtain ⟨a, hwinner, haid⟩ := htracked.winner hreturned
  obtain ⟨-, r, hr, hinserts⟩ := htracked.returned _ hwinner
  obtain rfl := Option.some.inj (hi.symm.trans hr)
  obtain ⟨passwordHash, hhash, rfl⟩ := hinserts
  set a := user.account id passwordHash with ha
  have hcheck : bcrypt.checkpw user.password a.passwordHash = some true := bcrypt.checkpw_hashpw hhash
  -- the account stays, and the login waits or has its token
  have hkept : (∃ winners, ⟨i, a⟩ ∈ winners ∧
      Tracked jwt bcrypt expireMinutes requests start p winners) ∧
      (p.threads[j]? = some ((Request.login a.email user.password issued).serve jwt bcrypt expireMinutes)
        ∨ p.threads[j]? = some (.ret (.token (createAccessToken jwt expireMinutes issued id.str)))) := by
    refine exec_invariant (P := fun q => (∃ winners, ⟨i, a⟩ ∈ winners ∧
      Tracked jwt bcrypt expireMinutes requests start q winners) ∧
      (q.threads[j]? = some ((Request.login a.email user.password issued).serve jwt bcrypt expireMinutes)
        ∨ q.threads[j]? = some (.ret (.token (createAccessToken jwt expireMinutes issued id.str)))))
      ?_ ⟨⟨winners, hwinner, htracked⟩, Or.inl hj⟩ h
    rintro k - q q' ⟨⟨winners₁, hmem₁, htracked₁⟩, hthread⟩ hstep
    obtain ⟨winners₂, hsub, htracked₂⟩ := htracked₁.step hstep
    refine ⟨⟨winners₂, hsub _ hmem₁, htracked₂⟩, ?_⟩
    obtain ⟨β, c, next, hk, hcase⟩ := Pool.step_cases hstep
    by_cases hkj : k = j
    · subst hkj
      rcases hthread with hthread | hthread
      · rw [hk] at hthread
        cases Option.some.inj hthread
        have hverified : Verified bcrypt q.state a.email user.password a :=
          ⟨Winner.mem_rows htracked₁ hmem₁, rfl, hcheck⟩
        rcases hcase with ⟨b, t', hexec, rfl⟩ | ⟨e, herror, -⟩
        · obtain ⟨rfl, hprog⟩ := executeAccount_login jwt bcrypt hverified hexec
          right
          rw [List.getElem?_set_self (List.getElem?_eq_some_iff.mp hk).1]
          exact congrArg some hprog
        · cases herror
      · rw [hk] at hthread
        cases hthread
    · have hsame : ∀ q₀, (q.threads.set k q₀)[j]? = q.threads[j]? := fun q₀ =>
        List.getElem?_set_ne hkj
      rcases hcase with ⟨b, t', -, rfl⟩ | ⟨e, -, rfl⟩
      · rwa [hsame]
      · rwa [hsame]
  refine ⟨createAccessToken jwt expireMinutes issued id.str, ?_, fun now hnow => ?_⟩
  · obtain ⟨q, hq, hout⟩ := Option.bind_eq_some_iff.mp hended
    rcases hkept.2 with hwaits | htoken
    · rw [hwaits] at hq
      obtain rfl := Option.some.inj hq
      cases hout
    · rw [htoken] at hq
      obtain rfl := Option.some.inj hq
      exact (Option.some.inj hout).symm
  · rw [getCurrentUser_createAccessToken, if_pos hnow]

theorem registered_can_login_oneUser : ∃ p, exec (Pool.step executeAccount) [0, 1, 0, 1, 2]
    (served plainJwt onePassword 60 twiceRegistered noAccounts) = some p ∧
      getCurrentUser plainJwt 0 ⟨some (Uuid.ofNat 1).str, 3600⟩ = .ok (.ofNat 1) := by
  obtain ⟨p, hp, -, hthird⟩ := exec_twiceRegistered
  have hsplit : [0, 1, 0, 1, 2] = [0, 1, 0] ++ [1, 2] := rfl
  rw [hsplit] at hp
  obtain ⟨mid, hmid, hrest⟩ := exec_append_eq_some.mp hp
  have hfirst : (exec (Pool.step executeAccount) [0, 1, 0]
      (served plainJwt onePassword 60 twiceRegistered noAccounts)).map (·.outcome 0)
        = some (some (.ok (.registered (.ofNat 1)))) := by decide +kernel
  have hwaits : (exec (Pool.step executeAccount) [0, 1, 0]
      (served plainJwt onePassword 60 twiceRegistered noAccounts)).map (·.threads[2]?)
        = some (some ((Request.login "a@b.c" "U*U" 0).serve plainJwt onePassword 60)) := rfl
  rw [hmid] at hfirst hwaits
  have hthread : mid.threads[2]?
      = some ((Request.login oneUser.email oneUser.password 0).serve plainJwt onePassword 60) :=
    Option.some.inj hwaits
  obtain ⟨token, htoken, hauth⟩ := registered_can_login plainJwt onePassword hmid rfl
    (Option.some.inj hfirst) hthread hrest hthird
  cases htoken
  exact ⟨p, hp, hauth 0 (by decide)⟩

end HighLoad.Users
