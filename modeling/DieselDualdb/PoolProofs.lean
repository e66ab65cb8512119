import DieselDualdb.Pool

/-!
# Detection ignores what connecting does not

`detect_backend` reads a trimmed copy in lower case; both ways of connecting
hand the driver the URL as it was written.  The manager and the async
connection agree with each other, but a URL written another way keeps its arm
and loses its target.
-/

namespace DualdbPool

open RustStr

/-! ## What connecting does -/

/-- The text handed to the SQLite driver. -/
def sqlitePath (url : String) : String :=
  (stripPrefix url "sqlite://").getD url

def decisionFor (url : String) : Option Backend → Decision
  | some .postgres => .pg url
  | some .sqlite => .sqlite (sqlitePath url)
  | none => .reject

theorem syncDecision_eq (url : String) :
    syncDecision url = decisionFor url (detectBackend url) := by
  rw [syncDecision, DualConnectionManager.new]
  generalize detectBackend url = backend
  rcases backend with _ | _ | _ <;> rfl

theorem asyncDecision_eq (url : String) :
    asyncDecision url = decisionFor url (detectBackend url) := by
  rw [asyncDecision, AsyncDualConnection.establish]
  generalize detectBackend url = backend
  rcases backend with _ | _ | _ <;> rfl

section AnyDrivers

variable {Pg Sqlite ConnectionError : Type}

/-- The decision, carried out by drivers. -/
def Decision.run (d : Drivers Pg Sqlite ConnectionError) :
    Decision → Option (Except ConnectionError (DualConnection Pg Sqlite))
  | .reject => none
  | .pg target => some ((d.pgEstablish target).map .pg)
  | .sqlite target => some ((d.sqliteEstablish target).map .sqlite)

/-- **WHAT THE MANAGER DOES** with any drivers is what it decided. -/
theorem connect_runs (d : Drivers Pg Sqlite ConnectionError) (url : String) :
    (DualConnectionManager.new url).toOption.map (·.connect d)
      = ((syncDecision url).run d).map (·.mapError R2d2Error.connectionError) := by
  rw [syncDecision_eq, DualConnectionManager.new]
  generalize detectBackend url = backend
  rcases backend with _ | _ | _ <;> rfl

/-- **WHAT THE ASYNC CONNECTION DOES** with any drivers is what it decided. -/
theorem establish_runs (d : Drivers Pg Sqlite ConnectionError) (url : String) :
    AsyncDualConnection.establish d url
      = ((asyncDecision url).run d).getD (.error (d.invalidConnectionUrl
          ("unsupported database URL scheme: " ++ url))) := by
  rw [asyncDecision_eq, AsyncDualConnection.establish]
  generalize detectBackend url = backend
  rcases backend with _ | _ | _ <;> rfl

end AnyDrivers

/-! ## One URL written in two ways -/

/-- The characters of a scheme. -/
def schemeChar (c : Char) : Bool :=
  c.isAlphanum || c = '+' || c = '-' || c = '.'

/-- The same URL but for the whitespace around it and the ASCII case of its
    scheme, or of `:memory:`. -/
inductive SameUrl (u u' : String) : Prop where
  | blanks (h : trim u = trim u')
  | scheme {s s' rest : String} (hs : s.toList.all schemeChar = true)
      (hu : trim u = s ++ ":" ++ rest) (hu' : trim u' = s' ++ ":" ++ rest)
      (hcase : toAsciiLowercase s = toAsciiLowercase s')
  | memory (hu : toAsciiLowercase (trim u) = ":memory:")
      (hu' : toAsciiLowercase (trim u') = ":memory:")

theorem toAsciiLowercase_append (s t : String) :
    toAsciiLowercase (s ++ t) = toAsciiLowercase s ++ toAsciiLowercase t := by
  rw [toAsciiLowercase, String.toList_append, List.map_append,
    String.ofList_append]
  rfl

theorem length_toAsciiLowercase (s : String) :
    (toAsciiLowercase s).length = s.length := by
  rw [toAsciiLowercase, String.length_ofList, List.length_map,
    String.length_toList]

/-- Detection reads the same text. -/
theorem SameUrl.lower {u u' : String} (h : SameUrl u u') :
    toAsciiLowercase (trim u) = toAsciiLowercase (trim u') := by
  cases h with
  | blanks h => rw [h]
  | scheme hs hu hu' hcase =>
      rw [hu, hu', toAsciiLowercase_append, toAsciiLowercase_append, hcase,
        ← toAsciiLowercase_append, ← toAsciiLowercase_append]
  | memory hu hu' => rw [hu, hu']

theorem SameUrl.detect {u u' : String} (h : SameUrl u u') :
    detectBackend u = detectBackend u' := by
  rw [detectBackend_eq, detectBackend_eq, h.lower]

/-! ## The target -/

theorem stripPrefix_of_startsWith {url : String}
    (h : startsWith url "sqlite://") :
    url = "sqlite://" ++ sqlitePath url := by
  obtain ⟨rest, hrest⟩ := h
  have hpath : sqlitePath url = String.ofList rest := by
    rw [sqlitePath, stripPrefix, if_pos ⟨rest, hrest⟩, ← hrest,
      List.drop_left]
    rfl
  rw [hpath]
  refine String.toList_injective ?_
  rw [String.toList_append, String.toList_ofList (l := rest), hrest]

theorem sqlitePath_of_not {url : String} (h : ¬ startsWith url "sqlite://") :
    sqlitePath url = url := by
  have hnot : ¬ "sqlite://".toList <+: url.toList := h
  rw [sqlitePath, stripPrefix, if_neg hnot]
  rfl

/-- A path is not the same URL as the path with the scheme before it. -/
theorem lower_ne_of_scheme (path : String) :
    toAsciiLowercase (trim ("sqlite://" ++ path))
      ≠ toAsciiLowercase (trim path) := by
  intro h
  have hlength := congrArg String.length h
  rw [length_toAsciiLowercase, length_toAsciiLowercase,
    trim_visible_append (x := 's') (y := '/') rfl rfl (by decide) (by decide),
    String.length_append] at hlength
  have hle := length_trim_le path
  have hscheme : "sqlite://".length = 9 := by decide
  omega

/-- Two ways to write one URL give one path only if they are the same. -/
theorem SameUrl.eq_of_path {u u' : String} (h : SameUrl u u')
    (hpath : sqlitePath u = sqlitePath u') : u = u' := by
  have hlower := h.lower
  by_cases hu : startsWith u "sqlite://"
  · have hu_eq := stripPrefix_of_startsWith hu
    by_cases hu' : startsWith u' "sqlite://"
    · rw [hu_eq, stripPrefix_of_startsWith hu', hpath]
    · rw [sqlitePath_of_not hu'] at hpath
      rw [hu_eq, hpath] at hlower
      exact absurd hlower (lower_ne_of_scheme u')
  · rw [sqlitePath_of_not hu] at hpath
    by_cases hu' : startsWith u' "sqlite://"
    · rw [stripPrefix_of_startsWith hu', ← hpath] at hlower
      exact absurd hlower.symm (lower_ne_of_scheme u)
    · rw [sqlitePath_of_not hu'] at hpath
      exact hpath

/-- **ONE TARGET ONLY FOR ONE TEXT**: unless it is rejected, a URL written in
    another way is given to its driver in another way. -/
theorem SameUrl.decision_eq_iff {u u' : String} (h : SameUrl u u') :
    decisionFor u' (detectBackend u') = decisionFor u (detectBackend u) ↔
      detectBackend u = none ∨ u' = u := by
  rw [← h.detect]
  constructor
  · intro hdecision
    rcases hb : detectBackend u with _ | _ | _
    · exact Or.inl rfl
    · rw [hb] at hdecision
      exact Or.inr (Decision.pg.inj hdecision)
    · rw [hb] at hdecision
      exact Or.inr (h.eq_of_path (Decision.sqlite.inj hdecision).symm).symm
  · rintro (hnone | rfl)
    · rw [hnone]
      rfl
    · rfl

/-! ## Detection and use -/

/-- Both ways of connecting decide the same for both texts. -/
structure UsedAlike (u u' : String) : Prop where
  sync : syncDecision u' = syncDecision u
  async : asyncDecision u' = asyncDecision u
  both : asyncDecision u = syncDecision u

/-- The URL is detected through its `sqlite://` scheme. -/
def SqliteScheme (u : String) : Prop :=
  startsWith (toAsciiLowercase (trim u)) "sqlite://"

instance (u : String) : Decidable (SqliteScheme u) :=
  inferInstanceAs (Decidable (startsWith _ _))

/-- The SQLite driver is given what follows the scheme. -/
def GivenPath (decision : String → Decision) (u : String) : Prop :=
  ∃ blank scheme path, u = blank ++ scheme ++ path ∧
    blank.toList.all isWhitespace = true ∧
    toAsciiLowercase scheme = "sqlite://" ∧ decision u = .sqlite path

def Decision.arm : Decision → Option Backend
  | .reject => none
  | .pg _ => some .postgres
  | .sqlite _ => some .sqlite

theorem arm_decisionFor (url : String) (b : Option Backend) :
    (decisionFor url b).arm = b := by
  rcases b with _ | _ | _ <;> rfl

/-- **THE ARM IS ALWAYS THE SAME**, however the URL is written. -/
theorem arm_same {u u' : String} (h : SameUrl u u') :
    (syncDecision u').arm = (syncDecision u).arm ∧
      (asyncDecision u').arm = (asyncDecision u).arm := by
  rw [syncDecision_eq, syncDecision_eq, asyncDecision_eq, asyncDecision_eq,
    arm_decisionFor, arm_decisionFor, h.detect]
  exact ⟨rfl, rfl⟩

theorem detectLower_sqlite {lower : String}
    (h : startsWith lower "sqlite://") : detectLower lower = some .sqlite := by
  have hpg : ¬ (startsWith lower "postgres://" ∨
      startsWith lower "postgresql://") := by
    obtain ⟨rest, hrest⟩ := h
    have hhead : ∀ scheme : String, scheme.toList.head? = some 'p' →
        ¬ startsWith lower scheme := by
      rintro scheme hp ⟨rest', hrest'⟩
      have hfirst := congrArg List.head? (hrest'.trans hrest.symm)
      rw [List.head?_append, hp] at hfirst
      exact absurd (Option.some.inj hfirst) (by decide)
    rintro (hpg | hpg)
    · exact hhead _ rfl hpg
    · exact hhead _ rfl hpg
  rw [detectLower, if_neg hpg, if_pos (Or.inl h)]

theorem detect_sqliteScheme {u : String} (h : SqliteScheme u) :
    detectBackend u = some .sqlite := by
  rw [detectBackend_eq]
  exact detectLower_sqlite h

/-- A path is what follows the scheme only where the scheme is written out. -/
theorem givenPath_iff {u : String} {decision : String → Decision}
    (hdecision : decision u = .sqlite (sqlitePath u)) :
    GivenPath decision u ↔ startsWith u "sqlite://" := by
  constructor
  · rintro ⟨blank, scheme, path, hu, -, hscheme, hpath⟩
    by_contra hnot
    rw [hdecision, sqlitePath_of_not hnot] at hpath
    have hlength := congrArg String.length (Decision.sqlite.inj hpath)
    have hnine := congrArg String.length hscheme
    rw [length_toAsciiLowercase] at hnine
    rw [hu, String.length_append, String.length_append, hnine] at hlength
    have hscheme : "sqlite://".length = 9 := by decide
    omega
  · intro hstarts
    refine ⟨"", "sqlite://", sqlitePath u, ?_, by decide, by decide, hdecision⟩
    rw [String.empty_append]
    exact stripPrefix_of_startsWith hstarts

/-- **DETECTION AND USE AGREE** on two texts of one URL exactly when the URL is
    rejected or the texts are the same; the scheme is taken off exactly when it
    is written in lower case at the very start. -/
theorem url_use_agrees_iff (u : String) :
    (∀ u', SameUrl u u' →
      (UsedAlike u u' ↔ detectBackend u = none ∨ u' = u)) ∧
    (SqliteScheme u →
      (GivenPath syncDecision u ∧ GivenPath asyncDecision u ↔
        startsWith u "sqlite://")) := by
  constructor
  · intro u' h
    rw [← h.decision_eq_iff]
    constructor
    · intro hused
      rw [← syncDecision_eq, ← syncDecision_eq]
      exact hused.sync
    · intro hdecision
      refine ⟨?_, ?_, ?_⟩
      · rwa [syncDecision_eq, syncDecision_eq]
      · rwa [asyncDecision_eq, asyncDecision_eq]
      · rw [asyncDecision_eq, syncDecision_eq]
  · intro h
    have hsync : syncDecision u = .sqlite (sqlitePath u) := by
      rw [syncDecision_eq, detect_sqliteScheme h]
      rfl
    have hasync : asyncDecision u = .sqlite (sqlitePath u) := by
      rw [asyncDecision_eq, detect_sqliteScheme h]
      rfl
    rw [givenPath_iff hsync, givenPath_iff hasync, and_self]

theorem url_use_agrees_iff_of_urls :
    UsedAlike "mysql://h" " MySQL://h\n" ∧
      ¬ UsedAlike "postgres://h" "Postgres://h" ∧
      GivenPath syncDecision "sqlite://app.db" ∧
      GivenPath asyncDecision "sqlite://app.db" := by
  refine ⟨?_, ?_, ((url_use_agrees_iff "sqlite://app.db").2
    (by decide +kernel)).mpr (by decide)⟩
  · refine ((url_use_agrees_iff "mysql://h").1 _ ?_).mpr
      (Or.inl (by decide +kernel))
    exact .scheme (by decide)
      (show trim "mysql://h" = "mysql" ++ ":" ++ "//h" by decide)
      (show trim " MySQL://h\n" = "MySQL" ++ ":" ++ "//h" by decide)
      (by decide)
  · intro hused
    have hsame : SameUrl "postgres://h" "Postgres://h" :=
      .scheme (by decide)
        (show trim "postgres://h" = "postgres" ++ ":" ++ "//h" by decide)
        (show trim "Postgres://h" = "Postgres" ++ ":" ++ "//h" by decide)
        (by decide)
    rcases ((url_use_agrees_iff "postgres://h").1 _ hsame).mp hused with hnone | heq
    · exact absurd hnone (by decide +kernel)
    · exact absurd heq (by decide)

/-- The scheme in upper case opens a file of that name. -/
theorem upper_case_scheme_is_kept :
    SameUrl "sqlite://app.db" "SQLITE://app.db" ∧
      SqliteScheme "SQLITE://app.db" ∧
      syncDecision "sqlite://app.db" = .sqlite "app.db" ∧
      syncDecision "SQLITE://app.db" = .sqlite "SQLITE://app.db" ∧
      asyncDecision "SQLITE://app.db" = .sqlite "SQLITE://app.db" ∧
      ¬ UsedAlike "sqlite://app.db" "SQLITE://app.db" := by
  have hsame : SameUrl "sqlite://app.db" "SQLITE://app.db" :=
    .scheme (by decide)
      (show trim "sqlite://app.db" = "sqlite" ++ ":" ++ "//app.db" by decide)
      (show trim "SQLITE://app.db" = "SQLITE" ++ ":" ++ "//app.db" by decide)
      (by decide)
  refine ⟨hsame, by decide +kernel, by decide +kernel, by decide +kernel,
    by decide +kernel, ?_⟩
  intro hused
  exact absurd hused.sync (by decide +kernel)

end DualdbPool
