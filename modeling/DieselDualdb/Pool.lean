import DieselDualdb.Lib.RustStr

/-!
# Database URLs: detection and connecting

`detect_backend` picks the backend of a URL.  The pool's manager and the async
connection then establish that backend, each in its own code.  The drivers are
a parameter; `recording` are drivers that only keep the text they are given.
-/

namespace DualdbPool

open RustStr

inductive Backend where
  | postgres
  | sqlite
deriving DecidableEq, Repr

/-- `lower.starts_with(scheme)` -/
def startsWith (s scheme : String) : Prop := scheme.toList <+: s.toList

instance (s scheme : String) : Decidable (startsWith s scheme) :=
  inferInstanceAs (Decidable (scheme.toList <+: s.toList))

/-- `lower.contains("://")` -/
def hasScheme (s : String) : Prop := "://".toList <:+: s.toList

instance (s : String) : Decidable (hasScheme s) :=
  inferInstanceAs (Decidable ("://".toList <:+: s.toList))

/-- The branches on the lower-case copy. -/
def detectLower (lower : String) : Option Backend :=
  if startsWith lower "postgres://" ∨ startsWith lower "postgresql://" then
    some .postgres
  else if startsWith lower "sqlite://" ∨ startsWith lower "file:"
      ∨ lower = ":memory:" then
    some .sqlite
  else if hasScheme lower then
    none -- an explicit, unrecognized scheme
  else
    some .sqlite -- no scheme: a filesystem path

def detectBackend (url : String) : Option Backend :=
  let lower := toAsciiLowercase (trim url)
  detectLower lower

theorem detectBackend_eq (url : String) :
    detectBackend url = detectLower (toAsciiLowercase (trim url)) := by
  rw [detectBackend]

-- a proof that matches on the backend is not to compute it
attribute [irreducible] detectBackend

/-- `establish` of the two drivers, and diesel's error for a bad URL. -/
structure Drivers (Pg Sqlite ConnectionError : Type) where
  pgEstablish : String → Except ConnectionError Pg
  sqliteEstablish : String → Except ConnectionError Sqlite
  invalidConnectionUrl : String → ConnectionError

/-- `DualConnection`, and `AsyncDualConnection` over the async drivers. -/
inductive DualConnection (Pg Sqlite : Type) where
  | pg (conn : Pg)
  | sqlite (conn : Sqlite)
deriving DecidableEq

variable {Pg Sqlite ConnectionError : Type}

/-! ## The pool's manager -/

inductive Error where
  | unknownUrl (url : String)
deriving DecidableEq

def Error.display : Error → String
  | .unknownUrl url => "unrecognized database URL (no known backend): " ++ url

/-- `diesel::r2d2::Error`, as `connect` returns it. -/
inductive R2d2Error (ConnectionError : Type) where
  | connectionError (e : ConnectionError)
deriving DecidableEq

structure DualConnectionManager where
  url : String
  backend : Backend
deriving DecidableEq

namespace DualConnectionManager

def new (url : String) : Except Error DualConnectionManager :=
  match detectBackend url with
  | some backend => .ok ⟨url, backend⟩
  | none => .error (.unknownUrl url)

def connect (d : Drivers Pg Sqlite ConnectionError)
    (self : DualConnectionManager) :
    Except (R2d2Error ConnectionError) (DualConnection Pg Sqlite) :=
  let conn : Except ConnectionError (DualConnection Pg Sqlite) :=
    match self.backend with
    | .postgres => (d.pgEstablish self.url).map .pg
    | .sqlite =>
        let path := (stripPrefix self.url "sqlite://").getD self.url
        (d.sqliteEstablish path).map .sqlite
  conn.mapError .connectionError

end DualConnectionManager

/-! ## The async connection -/

def AsyncDualConnection.establish (d : Drivers Pg Sqlite ConnectionError)
    (databaseUrl : String) :
    Except ConnectionError (DualConnection Pg Sqlite) :=
  match detectBackend databaseUrl with
  | some .postgres => (d.pgEstablish databaseUrl).map .pg
  | some .sqlite =>
      let path := (stripPrefix databaseUrl "sqlite://").getD databaseUrl
      (d.sqliteEstablish path).map .sqlite
  | none => .error (d.invalidConnectionUrl
      ("unsupported database URL scheme: " ++ databaseUrl))

/-! ## What is decided -/

/-- A URL is rejected, or an arm is given a target. -/
inductive Decision where
  | reject
  | pg (target : String)
  | sqlite (target : String)
deriving DecidableEq, Repr

/-- Drivers that connect to the text they are given. -/
def recording : Drivers String String String where
  pgEstablish := .ok
  sqliteEstablish := .ok
  invalidConnectionUrl := id

def Decision.ofConnection {E : Type} :
    Except E (DualConnection String String) → Decision
  | .ok (.pg target) => .pg target
  | .ok (.sqlite target) => .sqlite target
  | .error _ => .reject

/-- `DualConnectionManager::new`, then `connect`. -/
def syncDecision (url : String) : Decision :=
  match DualConnectionManager.new url with
  | .ok manager => .ofConnection (manager.connect recording)
  | .error _ => .reject

def asyncDecision (url : String) : Decision :=
  .ofConnection (AsyncDualConnection.establish recording url)

example : syncDecision "sqlite://app.db" = .sqlite "app.db" := by
  decide +kernel

end DualdbPool
