/-
# HighLoad.Replicas — the pools of the master and its slaves (`app/database.py`)

`_parse_slave_hosts` reads the addresses of the slaves from one string (`parseSlaveHosts_written`).
`connect` opens a pool for the master and one for each slave that can be reached, `slave_connection`
takes the slaves in turns and falls back to the master when there are none, and `disconnect` closes the
pools one at a time. Any number of connections are asked for in between.

However the pools come and go, a read gets an open pool of the latest `connect`, the slaves share the
reads evenly, and the master serves them only when no slave could be reached (`reads_balanced`).
-/
import HighLoad.TextParse
import HighLoad.Lib.RoundRobin
import HighLoad.Lib.Schedule
import Mathlib.Data.List.TakeWhile

namespace HighLoad.Replicas

open RoundRobin

/-! ## The addresses -/

/-- The digits of a decimal literal, in any script; an underscore stands between two of them. -/
def decimalLiteral : Bool → List Char → Option (List Nat)
  | afterDigit, [] => if afterDigit then some [] else none
  | afterDigit, c :: cs =>
      if c = '_' then
        if afterDigit then decimalLiteral false cs else none
      else do
        let d ← decimalValue c
        let ds ← decimalLiteral true cs
        return d :: ds

/-- `int(s)`; `none` is a `ValueError`. -/
def parseInt (s : List Char) : Option Int :=
  match strip s with
  | '-' :: cs => (decimalLiteral false cs).map fun ds => -(Radix.ofDigits 10 ds : Int)
  | '+' :: cs => (decimalLiteral false cs).map fun ds => (Radix.ofDigits 10 ds : Int)
  | cs => (decimalLiteral false cs).map fun ds => (Radix.ofDigits 10 ds : Int)

/-- `entry.rsplit(":", 1)` of an entry with a colon. -/
def rsplitColon (entry : List Char) : List Char × List Char :=
  (((entry.reverse.dropWhile (· ≠ ':')).drop 1).reverse, (entry.reverse.takeWhile (· ≠ ':')).reverse)

/-- An address of a server. -/
structure SlaveHost where
  host : List Char
  port : Int
  deriving DecidableEq

/-- The loop of `_parse_slave_hosts`. -/
def parseEntries : List (List Char) → Except PyError (List SlaveHost)
  | [] => .ok []
  | entry :: rest =>
      if strip entry = [] then parseEntries rest
      else if ':' ∈ strip entry then
        match parseInt (strip (rsplitColon (strip entry)).2) with
        | none => .error (.valueError "invalid literal for int() with base 10")
        | some port => (parseEntries rest).map (⟨strip (rsplitColon (strip entry)).1, port⟩ :: ·)
      else (parseEntries rest).map (⟨strip entry, 5432⟩ :: ·)

/-- `_parse_slave_hosts(raw)`. -/
def parseSlaveHosts (raw : String) : Except PyError (List SlaveHost) :=
  parseEntries (raw.toList.splitOn ',')

/-! ## Reading back what was written -/

/-- White space. -/
def Blank (s : List Char) : Prop := ∀ c ∈ s, isSpace c = true

/-- A text that neither begins nor ends with white space. -/
def Trimmed (s : List Char) : Prop :=
  (∀ c ∈ s.head?, isSpace c = false) ∧ ∀ c ∈ s.getLast?, isSpace c = false

variable {s pad pad' : List Char}

theorem dropWhile_blank (h : Blank s) : s.dropWhile isSpace = [] :=
  List.dropWhile_eq_nil_iff.mpr h

theorem strip_padded (hpad : Blank pad) (hpad' : Blank pad') : strip (pad ++ s ++ pad') = strip s := by
  unfold strip stripChars
  rw [List.append_assoc, List.dropWhile_append_of_pos hpad, List.dropWhile_append]
  split_ifs with hempty
  · rw [dropWhile_blank hpad', List.isEmpty_iff.mp hempty]
  · have hblank : ∀ c ∈ pad'.reverse, isSpace c = true := fun c hc => hpad' c (List.mem_reverse.mp hc)
    rw [List.reverse_append, List.dropWhile_append_of_pos hblank]

theorem Trimmed.strip_eq (h : Trimmed s) : strip s = s := by
  have hdrop : ∀ t : List Char, (∀ c ∈ t.head?, isSpace c = false) → t.dropWhile isSpace = t := by
    intro t ht
    cases t with
    | nil => rfl
    | cons c t => rw [List.dropWhile_cons_of_neg (by simp [ht c rfl])]
  unfold strip stripChars
  rw [hdrop s h.1, hdrop s.reverse (by rw [List.head?_reverse]; exact h.2), List.reverse_reverse]

/-- What a decimal digit is, and is not. -/
theorem decimalDigit_spec {d : Nat} (hd : d < 10) :
    decimalValue (hexDigit d) = some d ∧ hexDigit d ≠ '_' ∧
      hexDigit d ≠ '-' ∧ hexDigit d ≠ '+' ∧ hexDigit d ≠ ':' ∧ hexDigit d ≠ ',' ∧
      isSpace (hexDigit d) = false := by
  have hall : ∀ d : Fin 10, decimalValue (hexDigit d) = some d.val ∧
      hexDigit d ≠ '_' ∧ hexDigit d ≠ '-' ∧ hexDigit d ≠ '+' ∧ hexDigit d ≠ ':' ∧ hexDigit d ≠ ',' ∧
      isSpace (hexDigit d) = false := by
    decide
  exact hall ⟨d, hd⟩

/-- A number, written in decimal digits. -/
structure Numeral where
  digits : List Nat
  nonempty : digits ≠ []
  lt_ten : ∀ d ∈ digits, d < 10

namespace Numeral

def text (n : Numeral) : List Char := n.digits.map hexDigit

def value (n : Numeral) : Nat := Radix.ofDigits 10 n.digits

variable (n : Numeral)

theorem of_mem_text {c : Char} (hc : c ∈ n.text) :
    isSpace c = false ∧ c ≠ '-' ∧ c ≠ '+' ∧ c ≠ ':' ∧ c ≠ ',' := by
  obtain ⟨d, hd, rfl⟩ := List.mem_map.mp hc
  obtain ⟨-, -, hminus, hplus, hcolon, hcomma, hspace⟩ := decimalDigit_spec (n.lt_ten d hd)
  exact ⟨hspace, hminus, hplus, hcolon, hcomma⟩

theorem trimmed_text : Trimmed n.text :=
  ⟨fun _ hc => (n.of_mem_text (List.mem_of_mem_head? hc)).1,
    fun _ hc => (n.of_mem_text (List.mem_of_mem_getLast? hc)).1⟩

theorem decimalLiteral_map {ds : List Nat} (hds : ∀ d ∈ ds, d < 10) {b : Bool}
    (h : b = true ∨ ds ≠ []) : decimalLiteral b (ds.map hexDigit) = some ds := by
  induction ds generalizing b with
  | nil =>
      have hb : b = true := by simpa using h
      rw [hb]
      rfl
  | cons d ds ih =>
      obtain ⟨hvalue, hunderscore, -⟩ := decimalDigit_spec (hds d List.mem_cons_self)
      rw [List.map_cons, decimalLiteral, if_neg hunderscore, hvalue,
        ih (fun e he => hds e (List.mem_cons_of_mem d he)) (Or.inl rfl)]
      rfl

theorem parseInt_text : parseInt n.text = some (n.value : Int) := by
  unfold parseInt
  rw [n.trimmed_text.strip_eq]
  split
  · rename_i cs heq
    exact absurd rfl (n.of_mem_text (by rw [heq]; exact List.mem_cons_self)).2.1
  · rename_i cs heq
    exact absurd rfl (n.of_mem_text (by rw [heq]; exact List.mem_cons_self)).2.2.1
  · unfold text value
    rw [decimalLiteral_map n.lt_ten (Or.inr n.nonempty)]
    rfl

end Numeral

/-- An entry between two commas, with the white space around its parts. -/
inductive Written where
  | blank (pad : List Char)
  | bare (pad host pad' : List Char)
  | full (pad host pad₁ pad₂ : List Char) (port : Numeral) (pad' : List Char)

namespace Written

/-- The text of an entry. -/
def text : Written → List Char
  | .blank pad => pad
  | .bare pad host pad' => pad ++ host ++ pad'
  | .full pad host pad₁ pad₂ port pad' =>
      pad ++ (host ++ pad₁ ++ ':' :: (pad₂ ++ port.text)) ++ pad'

/-- What an entry stands for; without a port it is 5432. -/
def value : Written → Option SlaveHost
  | .blank _ => none
  | .bare _ host _ => some ⟨host, 5432⟩
  | .full _ host _ _ port _ => some ⟨host, port.value⟩

/-- The padding is white space and the host a nonempty text without outer white space; a host without a
port has no colon. -/
def WellFormed : Written → Prop
  | .blank pad => Blank pad
  | .bare pad host pad' => Blank pad ∧ Blank pad' ∧ Trimmed host ∧ host ≠ [] ∧ ',' ∉ host ∧ ':' ∉ host
  | .full pad host pad₁ pad₂ _ pad' =>
      Blank pad ∧ Blank pad₁ ∧ Blank pad₂ ∧ Blank pad' ∧ Trimmed host ∧ host ≠ [] ∧ ',' ∉ host

end Written

theorem Blank.not_mem (h : Blank s) {c : Char} (hc : isSpace c = false) : c ∉ s := fun hmem => by
  rw [h c hmem] at hc
  cases hc

theorem Written.comma_not_mem {e : Written} (h : e.WellFormed) : ',' ∉ e.text := by
  have hcomma : isSpace ',' = false := by decide
  cases e with
  | blank pad =>
      have hpad : Blank pad := h
      exact hpad.not_mem hcomma
  | bare pad host pad' =>
      obtain ⟨hpad, hpad', -, -, hhost, -⟩ := h
      simp only [text, List.mem_append, not_or]
      exact ⟨⟨hpad.not_mem hcomma, hhost⟩, hpad'.not_mem hcomma⟩
  | full pad host pad₁ pad₂ port pad' =>
      obtain ⟨hpad, h₁, h₂, hpad', -, -, hhost⟩ := h
      simp only [text, List.mem_append, List.mem_cons, not_or]
      exact ⟨⟨hpad.not_mem hcomma, ⟨hhost, h₁.not_mem hcomma⟩, by decide, h₂.not_mem hcomma,
        fun hc => (port.of_mem_text hc).2.2.2.2 rfl⟩, hpad'.not_mem hcomma⟩

/-- The last colon is the one before the port. -/
theorem rsplitColon_append {before after : List Char} (h : ':' ∉ after) :
    rsplitColon (before ++ ':' :: after) = (before, after) := by
  have hall : ∀ c ∈ after.reverse, decide (c ≠ ':') = true := by
    intro c hc
    rw [decide_eq_true_eq]
    rintro rfl
    exact h (List.mem_reverse.mp hc)
  have hreverse : (before ++ ':' :: after).reverse = after.reverse ++ ':' :: before.reverse := by simp
  unfold rsplitColon
  rw [hreverse, List.dropWhile_append_of_pos hall, List.takeWhile_append_of_pos hall,
    List.dropWhile_cons_of_neg (by decide), List.takeWhile_cons_of_neg (by decide)]
  simp

/-- One entry is read as what it stands for. -/
theorem parseEntries_text {e : Written} (h : e.WellFormed) (rest : List (List Char)) :
    parseEntries (e.text :: rest) = (parseEntries rest).map (e.value.toList ++ ·) := by
  cases e with
  | blank pad =>
      have hstrip : strip pad = [] := by
        have hpad : Blank pad := h
        unfold strip stripChars
        rw [dropWhile_blank hpad]
        rfl
      rw [Written.text, parseEntries, if_pos hstrip]
      cases parseEntries rest <;> rfl
  | bare pad host pad' =>
      obtain ⟨hpad, hpad', htrimmed, hne, -, hcolon⟩ := h
      have hstrip : strip (pad ++ host ++ pad') = host := by
        rw [strip_padded hpad hpad', htrimmed.strip_eq]
      rw [Written.text, parseEntries, hstrip, if_neg hne, if_neg hcolon]
      rfl
  | full pad host pad₁ pad₂ port pad' =>
      obtain ⟨hpad, h₁, h₂, hpad', htrimmed, hne, -⟩ := h
      set core := host ++ pad₁ ++ ':' :: (pad₂ ++ port.text) with hcore
      -- the core begins with the host and ends with the port
      have htrimmed' : Trimmed core := by
        constructor
        · intro c hc
          cases host with
          | nil => exact absurd rfl hne
          | cons c' host => exact htrimmed.1 c hc
        · intro c hc
          refine port.trimmed_text.2 c ?_
          have htext : port.text ≠ [] := by simp [Numeral.text, port.nonempty]
          have hlast : core = (host ++ pad₁ ++ ':' :: pad₂) ++ port.text := by simp [hcore]
          rw [hlast, List.getLast?_append_of_ne_nil _ htext] at hc
          exact hc
      have hstrip : strip (pad ++ core ++ pad') = core := by
        rw [strip_padded hpad hpad', htrimmed'.strip_eq]
      have hsplit : rsplitColon core = (host ++ pad₁, pad₂ ++ port.text) := by
        refine rsplitColon_append ?_
        rw [List.mem_append, not_or]
        exact ⟨h₂.not_mem (by decide), fun hc => (port.of_mem_text hc).2.2.2.1 rfl⟩
      have hhost : strip (host ++ pad₁) = host := by
        have hpadded : strip ([] ++ host ++ pad₁) = strip host := strip_padded (by simp [Blank]) h₁
        rwa [List.nil_append, htrimmed.strip_eq] at hpadded
      have hport : parseInt (strip (pad₂ ++ port.text)) = some (port.value : Int) := by
        have hpadded : strip (pad₂ ++ port.text ++ []) = strip port.text :=
          strip_padded h₂ (by simp [Blank])
        rw [List.append_nil, port.trimmed_text.strip_eq] at hpadded
        rw [hpadded, port.parseInt_text]
      have hne' : core ≠ [] := by simp [hcore]
      have hcolon : ':' ∈ core := by simp [hcore]
      rw [Written.text, parseEntries, hstrip, if_neg hne', if_pos hcolon, hsplit, hport, hhost]
      rfl

/-- **The addresses are read back as they were written**, whatever white space surrounds them and however
many entries are empty. -/
theorem parseSlaveHosts_written {entries : List Written} (h : ∀ e ∈ entries, e.WellFormed) :
    parseSlaveHosts (String.ofList ([','].intercalate (entries.map Written.text)))
      = .ok (entries.filterMap Written.value) := by
  have hparse : parseEntries (entries.map Written.text) = .ok (entries.filterMap Written.value) := by
    induction entries with
    | nil => rfl
    | cons e entries ih =>
        rw [List.map_cons, parseEntries_text (h e List.mem_cons_self),
          ih fun e' he' => h e' (List.mem_cons_of_mem e he'), List.filterMap_cons]
        cases e.value <;> rfl
  unfold parseSlaveHosts
  rw [String.toList_ofList]
  cases entries with
  | nil => rfl
  | cons e entries =>
      rw [List.splitOn_intercalate, hparse]
      · intro text htext
        obtain ⟨e', he', rfl⟩ := List.mem_map.mp htext
        exact Written.comma_not_mem (h e' he')
      · exact List.cons_ne_nil _ _

/-- Two addresses with white space, an empty entry and a default port. -/
def writtenHosts : List Written :=
  [.full [] "slave1".toList [] [] ⟨[5, 4, 3, 3], by decide, by decide⟩ [' '], .blank [' '],
    .bare ['\t'] "slave2".toList []]

theorem parseSlaveHosts_writtenHosts : parseSlaveHosts "slave1:5433 , ,\tslave2"
    = .ok [⟨"slave1".toList, 5433⟩, ⟨"slave2".toList, 5432⟩] := by
  have hwell : ∀ e ∈ writtenHosts, e.WellFormed := by
    intro e he
    rw [writtenHosts, List.mem_cons, List.mem_cons, List.mem_singleton] at he
    have hspace : isSpace ' ' = true ∧ isSpace '\t' = true ∧ isSpace 's' = false ∧
        isSpace '1' = false ∧ isSpace '2' = false := by decide
    rcases he with rfl | rfl | rfl <;> simp [Written.WellFormed, Blank, Trimmed, hspace]
  have htext : String.ofList ([','].intercalate (writtenHosts.map Written.text))
      = "slave1:5433 , ,\tslave2" := by decide +kernel
  have hvalue : writtenHosts.filterMap Written.value
      = [⟨"slave1".toList, 5433⟩, ⟨"slave2".toList, 5432⟩] := by decide +kernel
  rw [← htext, ← hvalue]
  exact parseSlaveHosts_written hwell

/-! ## The pools -/

/-- A connection pool: the number of its `create_pool` call and the address. -/
structure Pool where
  number : Nat
  address : SlaveHost
  deriving DecidableEq

/-- The class attributes of `Database`. `itertools.cycle` keeps the list it walks and its place. -/
structure Database where
  masterPool : Option Pool
  slavePools : List Pool
  slaveCycle : Option (List Pool × Nat)

namespace Database

/-- `_get_next_slave_pool()`. -/
def getNextSlavePool (db : Database) : Except PyError (Pool × Database) :=
  match db.slaveCycle with
  | none => .error (.runtimeError "Slave pools не инициализированы")
  | some (pools, k) =>
      match turn pools k with
      | none => .error (.runtimeError "StopIteration")
      | some pool => .ok (pool, { db with slaveCycle := some (pools, k + 1) })

/-- The pool of `master_connection()`, and of its alias `connection()`. -/
def masterConnection (db : Database) : Except PyError Pool :=
  match db.masterPool with
  | none => .error (.runtimeError "Master database pool не инициализирован")
  | some pool => .ok pool

/-- The pool of `slave_connection()`. -/
def slaveConnection (db : Database) : Except PyError (Pool × Database) :=
  if db.slavePools = [] then db.masterConnection.map fun pool => (pool, db)
  else db.getNextSlavePool

end Database

/-- Where `connect` or `disconnect` is: `connect` has these slaves to go, `disconnect` these pools. -/
inductive Phase where
  | idle
  | connecting (rest : List SlaveHost)
  | disconnecting (rest : List Pool)

/-- The attributes, the pools created and closed so far, and what slave reads have got since `connect`
returned. -/
structure System where
  db : Database
  phase : Phase
  created : Nat
  closed : List Pool
  served : List Pool

/-- An import of `app.database`. -/
def System.start : System := ⟨⟨none, [], none⟩, .idle, 0, [], []⟩

/-- What happens next: one of the calls gets to its next await, or somebody asks for a connection. -/
inductive Action where
  | connect (up : Bool)
  | connectSlave (up : Bool)
  | disconnect
  | closeSlave
  | read
  deriving DecidableEq

namespace System

/-- `connect` goes on to the next slave, or sets up the round-robin and returns. -/
def goConnect (s : System) : List SlaveHost → System
  | [] => { s with
      phase := .idle
      served := []
      db := { s.db with
        slaveCycle := if s.db.slavePools = [] then s.db.slaveCycle else some (s.db.slavePools, 0) } }
  | rest => { s with phase := .connecting rest }

/-- `disconnect` goes on to the next pool, or forgets them and returns. -/
def goDisconnect (s : System) : List Pool → System
  | [] => { s with phase := .idle, db := { s.db with slavePools := [], slaveCycle := none } }
  | rest => { s with phase := .disconnecting rest }

/-- One step, with the addresses of the settings. A `create_pool` that fails raises out of `connect` for
the master and skips a slave. -/
def step (master : SlaveHost) (hosts : Except PyError (List SlaveHost)) : Action → System → Option System
  | .connect up, s =>
      match s.phase with
      | .idle =>
          if up then
            let db := { s.db with masterPool := some ⟨s.created, master⟩, slavePools := [] }
            match hosts with
            | .ok slaves => some (goConnect { s with db := db, created := s.created + 1 } slaves)
            | .error _ => some { s with db := db, created := s.created + 1 }
          else some s
      | _ => none
  | .connectSlave up, s =>
      match s.phase with
      | .connecting (host :: rest) =>
          if up then
            some (goConnect { s with
              db := { s.db with slavePools := s.db.slavePools ++ [⟨s.created, host⟩] }
              created := s.created + 1 } rest)
          else some (goConnect s rest)
      | _ => none
  | .disconnect, s =>
      match s.phase with
      | .idle => some (goDisconnect { s with
          db := { s.db with masterPool := none }
          closed := s.closed ++ s.db.masterPool.toList } s.db.slavePools)
      | _ => none
  | .closeSlave, s =>
      match s.phase with
      | .disconnecting (pool :: rest) => some (goDisconnect { s with closed := s.closed ++ [pool] } rest)
      | _ => none
  | .read, s =>
      match s.db.slaveConnection with
      | .error _ => some s
      | .ok (pool, db) => some { s with db := db, served := s.served ++ [pool] }

/-! ### The invariant -/

/-- The pools of the attributes are open and distinct. -/
structure Open (s : System) : Prop where
  numbered : ∀ p, p ∈ s.db.slavePools ∨ p ∈ s.db.masterPool ∨ p ∈ s.closed → p.number < s.created
  nodup : s.db.slavePools.Nodup
  master : ∀ p ∈ s.db.masterPool, p ∉ s.closed ∧ p ∉ s.db.slavePools
  slaves : (∀ rest, s.phase ≠ .disconnecting rest) → ∀ p ∈ s.db.slavePools, p ∉ s.closed

/-- Outside `connect` the slaves have been taken in turns. -/
def InTurns (s : System) : Prop :=
  (∀ rest, s.phase ≠ .connecting rest) → s.db.slavePools ≠ [] →
    s.db.slaveCycle = some (s.db.slavePools, s.served.length) ∧
      s.served = rounds s.db.slavePools s.served.length

/-- The slaves are reachable ones of the settings, in their order. -/
def Configured (hosts : Except PyError (List SlaveHost)) (s : System) : Prop :=
  match s.phase with
  | .connecting rest => ∃ done, hosts = .ok (done ++ rest) ∧
      (s.db.slavePools.map Pool.address).Sublist done
  | _ => s.db.slavePools = [] ∨ ∃ all, hosts = .ok all ∧
      (s.db.slavePools.map Pool.address).Sublist all

/-- The invariant. -/
structure Sound (hosts : Except PyError (List SlaveHost)) (s : System) : Prop where
  opened : s.Open
  leaving : ∀ rest, s.phase = .disconnecting rest →
    s.db.masterPool = none ∧ ∀ p ∈ rest, p ∈ s.db.slavePools
  inTurns : s.InTurns
  configured : s.Configured hosts

variable {master : SlaveHost} {hosts : Except PyError (List SlaveHost)} {s s' : System}

theorem sound_start (hosts : Except PyError (List SlaveHost)) : start.Sound hosts where
  opened :=
    { numbered := by rintro p (hp | hp | hp) <;> cases hp
      nodup := List.nodup_nil
      master := fun p hp => by cases hp
      slaves := fun _ p hp => by cases hp }
  leaving _ hrest := by cases hrest
  inTurns _ hne := absurd rfl hne
  configured := Or.inl rfl

/-- `connect` after one more slave. -/
theorem sound_goConnect (hopen : s.Open) (hphase : ∀ rest, s.phase ≠ .disconnecting rest)
    {done rest : List SlaveHost} (hhosts : hosts = .ok (done ++ rest))
    (hslaves : (s.db.slavePools.map Pool.address).Sublist done) : (s.goConnect rest).Sound hosts := by
  have hslavesOpen := hopen.slaves hphase
  cases rest with
  | nil =>
      rw [List.append_nil] at hhosts
      refine ⟨⟨hopen.numbered, hopen.nodup, hopen.master, fun _ => hslavesOpen⟩, ?_, fun _ hne => ?_,
        Or.inr ⟨done, hhosts, hslaves⟩⟩
      · intro rest hrest
        cases hrest
      · exact ⟨if_neg hne, rfl⟩
  | cons host rest =>
      refine ⟨⟨hopen.numbered, hopen.nodup, hopen.master, fun _ => hslavesOpen⟩, ?_, fun hnot => ?_,
        done, hhosts, hslaves⟩
      · intro rest hrest
        cases hrest
      · exact absurd rfl (hnot _)

/-- `disconnect` after one more pool. -/
theorem sound_goDisconnect (hnumbered : ∀ p, p ∈ s.db.slavePools ∨ p ∈ s.closed → p.number < s.created)
    (hnodup : s.db.slavePools.Nodup) (hmaster : s.db.masterPool = none) {rest : List Pool}
    (hrest : ∀ p ∈ rest, p ∈ s.db.slavePools)
    (hturns : s.db.slavePools ≠ [] → s.db.slaveCycle = some (s.db.slavePools, s.served.length) ∧
      s.served = rounds s.db.slavePools s.served.length)
    (hslaves : s.db.slavePools = [] ∨ ∃ all, hosts = .ok all ∧
      (s.db.slavePools.map Pool.address).Sublist all) : (s.goDisconnect rest).Sound hosts := by
  cases rest with
  | nil =>
      refine ⟨⟨?_, List.nodup_nil, ?_, fun _ p hp => by cases hp⟩,
        (fun _ hphase => by cases hphase), fun _ hne => absurd rfl hne, Or.inl rfl⟩
      · rintro p (hp | hp | hp)
        · cases hp
        · change p ∈ s.db.masterPool at hp
          rw [hmaster] at hp
          cases hp
        · exact hnumbered p (Or.inr hp)
      · intro p hp
        change p ∈ s.db.masterPool at hp
        rw [hmaster] at hp
        cases hp
  | cons pool rest =>
      refine ⟨⟨?_, hnodup, ?_, fun hnot => absurd rfl (hnot _)⟩, ?_, fun _ => hturns, hslaves⟩
      · rintro p (hp | hp | hp)
        · exact hnumbered p (Or.inl hp)
        · change p ∈ s.db.masterPool at hp
          rw [hmaster] at hp
          cases hp
        · exact hnumbered p (Or.inr hp)
      · intro p hp
        change p ∈ s.db.masterPool at hp
        rw [hmaster] at hp
        cases hp
      · intro rest' hphase
        obtain rfl := Phase.disconnecting.inj hphase
        exact ⟨hmaster, hrest⟩

/-- What a read does: it takes a turn, or goes to the master. -/
theorem slaveConnection_cases {db db' : Database} {pool : Pool}
    (h : db.slaveConnection = .ok (pool, db')) :
    (db.slavePools = [] ∧ db' = db) ∨ db.slavePools ≠ [] ∧ ∃ pools k, db.slaveCycle = some (pools, k) ∧
      turn pools k = some pool ∧ db' = { db with slaveCycle := some (pools, k + 1) } := by
  unfold Database.slaveConnection at h
  by_cases hempty : db.slavePools = []
  · rw [if_pos hempty] at h
    refine Or.inl ⟨hempty, ?_⟩
    cases hmaster : db.masterConnection with
    | error e =>
        rw [hmaster] at h
        cases h
    | ok master =>
        rw [hmaster] at h
        exact (Prod.mk.inj (Except.ok.inj h)).2.symm
  · rw [if_neg hempty] at h
    refine Or.inr ⟨hempty, ?_⟩
    unfold Database.getNextSlavePool at h
    cases hcycle : db.slaveCycle with
    | none =>
        rw [hcycle] at h
        cases h
    | some cycle =>
        obtain ⟨pools, k⟩ := cycle
        rw [hcycle] at h
        dsimp only at h
        cases hturn : turn pools k with
        | none =>
            rw [hturn] at h
            cases h
        | some next =>
            rw [hturn] at h
            obtain ⟨rfl, rfl⟩ := Prod.mk.inj (Except.ok.inj h)
            exact ⟨pools, k, rfl, hturn, rfl⟩

/-- A read changes nothing but whose turn it is. -/
theorem Sound.read (h : s.Sound hosts) {pool : Pool} {db : Database}
    (hread : s.db.slaveConnection = .ok (pool, db)) :
    Sound hosts { s with db := db, served := s.served ++ [pool] } := by
  rcases slaveConnection_cases hread with ⟨hempty, rfl⟩ | ⟨-, pools, k, hcycle, hturn, rfl⟩
  · exact ⟨⟨h.opened.numbered, h.opened.nodup, h.opened.master, h.opened.slaves⟩, h.leaving,
      fun _ hne => absurd hempty hne, h.configured⟩
  · refine ⟨⟨h.opened.numbered, h.opened.nodup, h.opened.master, h.opened.slaves⟩, h.leaving,
      fun hphase hne => ?_, h.configured⟩
    obtain ⟨hplace, hserved⟩ := h.inTurns hphase hne
    obtain ⟨rfl, rfl⟩ := Prod.mk.inj (Option.some.inj (hcycle.symm.trans hplace))
    rw [List.length_append, List.length_singleton]
    refine ⟨rfl, ?_⟩
    rw [rounds_succ hturn, ← hserved]

/-- `connect` has reached the master. -/
theorem Open.connect {db : Database} {created : Nat} {closed served : List Pool}
    (h : Open ⟨db, .idle, created, closed, served⟩) (master : SlaveHost) :
    Open ⟨⟨some ⟨created, master⟩, [], db.slaveCycle⟩, .idle, created + 1, closed, served⟩ := by
  refine ⟨?_, List.nodup_nil, ?_, fun _ p hp => by cases hp⟩
  · rintro p (hp | hp | hp)
    · cases hp
    · rw [← Option.some.inj hp]
      exact Nat.lt_succ_self _
    · exact Nat.lt_succ_of_lt (h.numbered p (Or.inr (Or.inr hp)))
  · intro p hp
    rw [← Option.some.inj hp]
    refine ⟨fun hclosed => ?_, List.not_mem_nil⟩
    exact absurd (h.numbered _ (Or.inr (Or.inr hclosed))) (Nat.lt_irrefl _)

/-- `connect` has reached one more slave. -/
theorem Open.connectSlave {db : Database} {phase : Phase} {created : Nat} {closed served : List Pool}
    (h : Open ⟨db, phase, created, closed, served⟩) (hphase : ∀ rest, phase ≠ .disconnecting rest)
    (host : SlaveHost) : Open ⟨{ db with slavePools := db.slavePools ++ [⟨created, host⟩] }, phase,
      created + 1, closed, served⟩ := by
  have hfresh : ∀ p, p ∈ db.slavePools ∨ p ∈ db.masterPool ∨ p ∈ closed → p ≠ ⟨created, host⟩ := by
    rintro p hp rfl
    exact absurd (h.numbered _ hp) (Nat.lt_irrefl _)
  refine ⟨?_, ?_, ?_, ?_⟩
  · rintro p (hp | hp | hp)
    · rcases List.mem_append.mp hp with hp | hp
      · exact Nat.lt_succ_of_lt (h.numbered p (Or.inl hp))
      · rw [List.mem_singleton.mp hp]
        exact Nat.lt_succ_self _
    · exact Nat.lt_succ_of_lt (h.numbered p (Or.inr (Or.inl hp)))
    · exact Nat.lt_succ_of_lt (h.numbered p (Or.inr (Or.inr hp)))
  · rw [List.nodup_append]
    refine ⟨h.nodup, List.nodup_singleton _, fun p hp q hq => ?_⟩
    rw [List.mem_singleton.mp hq]
    exact hfresh p (Or.inl hp)
  · intro p hp
    refine ⟨(h.master p hp).1, fun hmem => ?_⟩
    rcases List.mem_append.mp hmem with hmem | hmem
    · exact (h.master p hp).2 hmem
    · exact hfresh p (Or.inr (Or.inl hp)) (List.mem_singleton.mp hmem)
  · intro _ p hp hclosed
    rcases List.mem_append.mp hp with hp | hp
    · exact h.slaves hphase p hp hclosed
    · exact hfresh p (Or.inr (Or.inr hclosed)) (List.mem_singleton.mp hp)

/-- **The step lemma.** -/
theorem Sound.step (h : s.Sound hosts) {a : Action} (hstep : step master hosts a s = some s') :
    s'.Sound hosts := by
  obtain ⟨db, phase, created, closed, served⟩ := s
  have hidle : ∀ rest, Phase.idle ≠ .disconnecting rest := fun rest hrest => by cases hrest
  cases a with
  | connect up =>
      cases phase with
      | connecting rest => simp [System.step] at hstep
      | disconnecting rest => simp [System.step] at hstep
      | idle =>
          simp only [System.step] at hstep
          by_cases hup : up = true
          · rw [if_pos hup] at hstep
            have hopen := h.opened.connect master
            cases hhosts : hosts with
            | ok slaves =>
                rw [hhosts] at hstep
                obtain rfl := Option.some.inj hstep
                exact sound_goConnect hopen hidle rfl (List.Sublist.refl [])
            | error e =>
                rw [hhosts] at hstep
                obtain rfl := Option.some.inj hstep
                exact ⟨hopen, fun rest hrest => absurd hrest (hidle rest), fun _ hne => absurd rfl hne,
                  Or.inl rfl⟩
          · rw [if_neg hup] at hstep
            obtain rfl := Option.some.inj hstep
            exact h
  | connectSlave up =>
      cases phase with
      | idle => simp [System.step] at hstep
      | disconnecting rest => simp [System.step] at hstep
      | connecting rest =>
          cases rest with
          | nil => simp [System.step] at hstep
          | cons host rest =>
              simp only [System.step] at hstep
              have hnot : ∀ rest', Phase.connecting (host :: rest) ≠ .disconnecting rest' :=
                fun rest' hrest => by cases hrest
              obtain ⟨done, hhosts, hslaves⟩ := h.configured
              have hhosts' : hosts = .ok (done ++ [host] ++ rest) := by
                rw [hhosts, List.append_assoc]
                rfl
              by_cases hup : up = true
              · rw [if_pos hup] at hstep
                obtain rfl := Option.some.inj hstep
                refine sound_goConnect (h.opened.connectSlave hnot host) hnot hhosts' ?_
                rw [List.map_append]
                exact hslaves.append (List.Sublist.refl [host])
              · rw [if_neg hup] at hstep
                obtain rfl := Option.some.inj hstep
                exact sound_goConnect h.opened hnot hhosts'
                  (hslaves.trans (List.sublist_append_left done [host]))
  | disconnect =>
      cases phase with
      | connecting rest => simp [System.step] at hstep
      | disconnecting rest => simp [System.step] at hstep
      | idle =>
          obtain rfl := Option.some.inj hstep
          refine sound_goDisconnect (s := ⟨{ db with masterPool := none }, .idle, created,
            closed ++ db.masterPool.toList, served⟩) ?_ h.opened.nodup rfl (fun p hp => hp)
            (h.inTurns fun rest hrest => by cases hrest) h.configured
          rintro p (hp | hp)
          · exact h.opened.numbered p (Or.inl hp)
          · rcases List.mem_append.mp hp with hp | hp
            · exact h.opened.numbered p (Or.inr (Or.inr hp))
            · exact h.opened.numbered p (Or.inr (Or.inl (Option.mem_toList.mp hp)))
  | closeSlave =>
      cases phase with
      | idle => simp [System.step] at hstep
      | connecting rest => simp [System.step] at hstep
      | disconnecting rest =>
          cases rest with
          | nil => simp [System.step] at hstep
          | cons pool rest =>
              obtain rfl := Option.some.inj hstep
              obtain ⟨hmaster, hrest⟩ := h.leaving _ rfl
              refine sound_goDisconnect (s := ⟨db, .disconnecting (pool :: rest), created,
                closed ++ [pool], served⟩) ?_ h.opened.nodup hmaster
                (fun p hp => hrest p (List.mem_cons_of_mem pool hp)) (h.inTurns fun rest hrest => by cases hrest) h.configured
              rintro p (hp | hp)
              · exact h.opened.numbered p (Or.inl hp)
              · rcases List.mem_append.mp hp with hp | hp
                · exact h.opened.numbered p (Or.inr (Or.inr hp))
                · rw [List.mem_singleton.mp hp]
                  exact h.opened.numbered pool (Or.inl (hrest pool List.mem_cons_self))
  | read =>
      simp only [System.step] at hstep
      cases hread : db.slaveConnection with
      | error e =>
          rw [hread] at hstep
          obtain rfl := Option.some.inj hstep
          exact h
      | ok r =>
          rw [hread] at hstep
          obtain rfl := Option.some.inj hstep
          exact h.read hread

/-- The run lemma. -/
theorem sound_of_exec {acts : List Action} (h : exec (step master hosts) acts start = some s) :
    s.Sound hosts :=
  exec_invariant (fun _ _ _ _ ht hstep => ht.step hstep) (sound_start hosts) h

/-- Where a read leaves the master pool. -/
theorem masterPool_slaveConnection {db db' : Database} {pool : Pool}
    (h : db.slaveConnection = .ok (pool, db')) : db'.masterPool = db.masterPool := by
  rcases slaveConnection_cases h with ⟨-, rfl⟩ | ⟨-, pools, k, -, -, rfl⟩ <;> rfl

theorem masterPool_goConnect (s : System) (rest : List SlaveHost) :
    (s.goConnect rest).db.masterPool = s.db.masterPool := by
  cases rest <;> rfl

/-- A `connect` that reaches the master has its pool, whatever comes of the slaves. -/
theorem masterPool_connect {s s' : System} (hstep : step master hosts (.connect true) s = some s') :
    s'.db.masterPool ≠ none := by
  obtain ⟨db, phase, created, closed, served⟩ := s
  cases phase with
  | idle =>
      simp only [step, if_true] at hstep
      cases hosts with
      | error e =>
          obtain rfl := Option.some.inj hstep
          exact Option.some_ne_none _
      | ok slaves =>
          obtain rfl := Option.some.inj hstep
          rw [masterPool_goConnect]
          exact Option.some_ne_none _
  | connecting rest => simp [step] at hstep
  | disconnecting rest => simp [step] at hstep

/-- Only `disconnect` forgets the master pool. -/
theorem masterPool_step {s s' : System} {a : Action} (hs : s.db.masterPool ≠ none)
    (ha : a ≠ .disconnect) (hstep : step master hosts a s = some s') : s'.db.masterPool ≠ none := by
  cases a with
  | connect up =>
      cases up with
      | true => exact masterPool_connect hstep
      | false =>
          cases hphase : s.phase with
          | idle =>
              simp only [step, hphase, Bool.false_eq_true, if_false] at hstep
              exact Option.some.inj hstep ▸ hs
          | connecting rest => simp [step, hphase] at hstep
          | disconnecting rest => simp [step, hphase] at hstep
  | connectSlave up =>
      cases hphase : s.phase with
      | connecting rest =>
          cases rest with
          | nil => simp [step, hphase] at hstep
          | cons host rest =>
              simp only [step, hphase] at hstep
              split_ifs at hstep
              · obtain rfl := Option.some.inj hstep
                rw [masterPool_goConnect]
                exact hs
              · obtain rfl := Option.some.inj hstep
                rw [masterPool_goConnect]
                exact hs
      | idle => simp [step, hphase] at hstep
      | disconnecting rest => simp [step, hphase] at hstep
  | disconnect => exact absurd rfl ha
  | closeSlave =>
      cases hphase : s.phase with
      | disconnecting rest =>
          cases rest with
          | nil => simp [step, hphase] at hstep
          | cons pool rest =>
              simp only [step, hphase] at hstep
              obtain rfl := Option.some.inj hstep
              cases rest <;> exact hs
      | idle => simp [step, hphase] at hstep
      | connecting rest => simp [step, hphase] at hstep
  | read =>
      simp only [step] at hstep
      cases hread : s.db.slaveConnection with
      | error e =>
          rw [hread] at hstep
          exact Option.some.inj hstep ▸ hs
      | ok r =>
          rw [hread] at hstep
          obtain rfl := Option.some.inj hstep
          rw [show (_ : Database) = r.2 from rfl, masterPool_slaveConnection hread]
          exact hs

/-- Between the calls of `connect` and `disconnect` there is a master pool. -/
theorem masterPool_of_exec {pre more : List Action} (hmore : .disconnect ∉ more)
    (h : exec (step master hosts) (pre ++ .connect true :: more) start = some s) :
    s.db.masterPool ≠ none := by
  obtain ⟨t, -, hrest⟩ := exec_append_eq_some.mp h
  obtain ⟨t', hconnect, hlater⟩ := exec_cons_eq_some.mp hrest
  exact exec_invariant (P := fun s => s.db.masterPool ≠ none)
    (fun a ha s s' hs hstep => masterPool_step hs (fun heq => hmore (heq ▸ ha)) hstep)
    (masterPool_connect hconnect) hlater

/-! ### The main result -/

/-- **Reads are served by open pools, in turns.** Whatever was connected, disconnected and read before,
between the calls of `connect` and `disconnect` a read gets a pool, and it is open; it gets the master's
only when there is no slave, and otherwise the next slave, so that each slave has had its even share of
the reads since `connect`; and the slaves are those of the settings, in their order, less the unreachable
ones. -/
theorem reads_balanced {acts : List Action} (h : exec (step master hosts) acts start = some s)
    (hidle : s.phase = .idle) :
    (∀ pre more, acts = pre ++ .connect true :: more → .disconnect ∉ more →
        ∃ pool db, s.db.slaveConnection = .ok (pool, db)) ∧
      (∀ pool db, s.db.slaveConnection = .ok (pool, db) → pool ∉ s.closed) ∧
      (s.db.slavePools = [] → ∀ pool db, s.db.slaveConnection = .ok (pool, db) →
        s.db.masterPool = some pool) ∧
      (s.db.slavePools ≠ [] →
        (∃ pool db, s.db.slaveConnection = .ok (pool, db) ∧
          turn s.db.slavePools s.served.length = some pool) ∧
        (∃ all, hosts = .ok all ∧ (s.db.slavePools.map Pool.address).Sublist all) ∧
        ∀ (i : Nat) p, s.db.slavePools[i]? = some p → s.served.count p
          = s.served.length / s.db.slavePools.length
            + if i < s.served.length % s.db.slavePools.length then 1 else 0) := by
  have hsound := sound_of_exec h
  have hconnecting : ∀ rest, s.phase ≠ .connecting rest := by
    intro rest hrest
    rw [hidle] at hrest
    cases hrest
  have hdisconnecting : ∀ rest, s.phase ≠ .disconnecting rest := by
    intro rest hrest
    rw [hidle] at hrest
    cases hrest
  have hmaster : s.db.slavePools = [] → ∀ pool db, s.db.slaveConnection = .ok (pool, db) →
      s.db.masterPool = some pool := by
    intro hempty pool db hread
    unfold Database.slaveConnection Database.masterConnection at hread
    rw [if_pos hempty] at hread
    cases hpool : s.db.masterPool with
    | none =>
        rw [hpool] at hread
        cases hread
    | some p =>
        rw [hpool] at hread
        rw [(Prod.mk.inj (Except.ok.inj hread)).1]
  have hturns : s.db.slavePools ≠ [] → ∃ pool db, s.db.slaveConnection = .ok (pool, db) ∧
      turn s.db.slavePools s.served.length = some pool := by
    intro hne
    obtain ⟨hplace, hserved⟩ := hsound.inTurns hconnecting hne
    obtain ⟨pool, hturn⟩ := exists_turn hne s.served.length
    refine ⟨pool, { s.db with slaveCycle := some (s.db.slavePools, s.served.length + 1) }, ?_, hturn⟩
    unfold Database.slaveConnection Database.getNextSlavePool
    rw [if_neg hne, hplace]
    dsimp only
    rw [hturn]
  refine ⟨?_, fun pool db hread => ?_, hmaster, fun hne => ?_⟩
  · rintro pre more rfl hmore
    by_cases hempty : s.db.slavePools = []
    · obtain ⟨pool, hpool⟩ := Option.ne_none_iff_exists'.mp (masterPool_of_exec hmore h)
      refine ⟨pool, s.db, ?_⟩
      unfold Database.slaveConnection Database.masterConnection
      rw [if_pos hempty, hpool]
      rfl
    · obtain ⟨pool, db, hread, -⟩ := hturns hempty
      exact ⟨pool, db, hread⟩
  · rcases slaveConnection_cases hread with ⟨hempty, -⟩ | ⟨hne, pools, k, hcycle, hturn, -⟩
    · exact (hsound.opened.master pool (hmaster hempty pool db hread)).1
    · obtain ⟨hplace, -⟩ := hsound.inTurns hconnecting hne
      obtain ⟨rfl, rfl⟩ := Prod.mk.inj (Option.some.inj (hcycle.symm.trans hplace))
      exact hsound.opened.slaves hdisconnecting pool (List.mem_of_getElem? hturn)
  · obtain ⟨-, hserved⟩ := hsound.inTurns hconnecting hne
    refine ⟨hturns hne, ?_, fun i p hp => ?_⟩
    · have hconfigured := hsound.configured
      unfold Configured at hconfigured
      rw [hidle] at hconfigured
      exact hconfigured.resolve_left hne
    · have hcount := count_rounds hsound.opened.nodup hp s.served.length
      rwa [← hserved] at hcount

/-- Two of three slaves answer; three reads, and a new start. -/
def restarted : List Action :=
  [.connect true, .connectSlave true, .connectSlave false, .connectSlave true, .read, .read, .read,
    .disconnect, .closeSlave, .closeSlave, .read, .connect true, .connectSlave true, .connectSlave true,
    .connectSlave false, .read, .read, .read]

/-- The settings of the sample: three addresses, one of them without a port. -/
def threeHosts : Except PyError (List SlaveHost) := parseSlaveHosts "slave1:5433, slave2, slave3:5434"

theorem reads_balanced_restarted : ∃ s,
    exec (step ⟨"master".toList, 5432⟩ threeHosts) restarted start = some s ∧
      s.served.length = 3 ∧ s.served.count ⟨4, ⟨"slave1".toList, 5433⟩⟩ = 2 ∧
      ∃ pool db, s.db.slaveConnection = .ok (pool, db) := by
  have hrun : (exec (step ⟨"master".toList, 5432⟩ threeHosts) restarted start).map
      (fun s => (decide (s.phase matches .idle), s.db.slavePools, s.served.length))
        = some (true, [⟨4, ⟨"slave1".toList, 5433⟩⟩, ⟨5, ⟨"slave2".toList, 5432⟩⟩], 3) := by
    decide +kernel
  obtain ⟨s, hs, hall⟩ := Option.map_eq_some_iff.mp hrun
  obtain ⟨hidle, hrest⟩ := Prod.mk.inj hall
  obtain ⟨hpools, hlength⟩ := Prod.mk.inj hrest
  have hphase : s.phase = .idle := by
    cases hp : s.phase with
    | idle => rfl
    | connecting rest =>
        rw [hp] at hidle
        cases hidle
    | disconnecting rest =>
        rw [hp] at hidle
        cases hidle
  have hne : s.db.slavePools ≠ [] := by
    rw [hpools]
    exact List.cons_ne_nil _ _
  obtain ⟨hserves, -, -, hbalanced⟩ := reads_balanced hs hphase
  have hcount := (hbalanced hne).2.2 0 ⟨4, ⟨"slave1".toList, 5433⟩⟩ (by rw [hpools]; rfl)
  rw [hlength, hpools] at hcount
  exact ⟨s, hs, hlength, hcount, hserves (restarted.take 11) (restarted.drop 12) rfl (by decide)⟩

end System

end HighLoad.Replicas
