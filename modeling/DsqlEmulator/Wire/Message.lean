import Mathlib.Data.List.Basic

namespace DsqlEmulator.Wire

/-- The transaction status a `ReadyForQuery` carries: `I`, `T` or `E`. -/
inductive TxStatus : Type
  | idle | active | failed
  deriving DecidableEq, Repr

/-- The type byte of a frontend message. -/
inductive Tag : Type
  | query | parse | bind | describe | execute | close | flush | sync | terminate | functionCall
  | other
  deriving DecidableEq, Repr

structure Bind where
  portal : String
  statement : String
  params : List (Option String) := []
  paramFormats : List Int := []
  resultFormats : List Int := []
  deriving DecidableEq, Repr

/-- The message types the session decodes. -/
inductive Decoded : Type
  | query | parse | bind | close
  deriving DecidableEq, Repr

/-- A message of the client, or one the emulator writes in its place.
`malformed` is a body `DecodeFrontend` cannot read. -/
inductive Frontend : Type
  | query (sql : String)
  | parse (name sql : String)
  | bind (b : Bind)
  | describe (statement : Bool) (name : String)
  | execute (portal : String)
  | close (statement : Bool) (name : String)
  | flush
  | sync
  | terminate
  | functionCall
  | malformed (type : Decoded)
  | other
  deriving DecidableEq, Repr

def Decoded.tag : Decoded → Tag
  | .query => .query
  | .parse => .parse
  | .bind => .bind
  | .close => .close

def Frontend.tag : Frontend → Tag
  | .query _ => .query
  | .parse _ _ => .parse
  | .bind _ => .bind
  | .describe _ _ => .describe
  | .execute _ => .execute
  | .close _ _ => .close
  | .flush => .flush
  | .sync => .sync
  | .terminate => .terminate
  | .functionCall => .functionCall
  | .malformed t => t.tag
  | .other => .other

@[simp] theorem Frontend.tag_query (sql : String) : (query sql).tag = .query := rfl
@[simp] theorem Frontend.tag_parse (name sql : String) : (parse name sql).tag = .parse := rfl
@[simp] theorem Frontend.tag_bind (b : Bind) : (bind b).tag = .bind := rfl
@[simp] theorem Frontend.tag_execute (portal : String) : (execute portal).tag = .execute := rfl
@[simp] theorem Frontend.tag_sync : sync.tag = .sync := rfl
@[simp] theorem Frontend.tag_terminate : terminate.tag = .terminate := rfl

theorem Frontend.eq_sync {m : Frontend} (h : m.tag = .sync) : m = .sync := by
  cases m with
  | sync => rfl
  | malformed t => cases t <;> cases h
  | _ => cases h

def Frontend.sql : Frontend → Option String
  | .query sql => some sql
  | .parse _ sql => some sql
  | _ => none

def Frontend.assigned : Frontend → Option String
  | .parse name _ => some name
  | .close true name => some name
  | _ => none

def Frontend.drawsReady (m : Frontend) : Bool :=
  m.tag = .query || m.tag = .sync || m.tag = .functionCall

/-- The messages `forward` counts as an exchange. -/
def Frontend.counted (m : Frontend) : Bool :=
  m.tag = .query || m.tag = .sync

def Tag.extended : Tag → Bool
  | .parse | .bind | .describe | .execute | .close | .flush => true
  | _ => false

theorem Frontend.drawsReady_of_extended {m : Frontend} (h : m.tag.extended = true) :
    m.drawsReady = false := by
  unfold Frontend.drawsReady
  cases ht : m.tag <;> simp [ht, Tag.extended] at h ⊢

structure ErrorFields where
  severity : String := "ERROR"
  code : String
  message : String
  detail : String := ""
  hint : String := ""
  deriving DecidableEq, Repr

inductive Backend : Type
  | parseComplete
  | bindComplete
  | closeComplete
  | portalSuspended
  | emptyQuery
  | noData
  | parameterDescription
  | rowDescription (columns : List String)
  | dataRow (values : List (Option String))
  | commandComplete (tag : String)
  | error (fields : ErrorFields)
  | ready (status : TxStatus)
  | parameterStatus (name value : String)
  | other (tag : Char)
  deriving DecidableEq, Repr

def Backend.isReady : Backend → Bool
  | .ready _ => true
  | _ => false

def Backend.isError : Backend → Bool
  | .error _ => true
  | _ => false

def Backend.isComplete : Backend → Bool
  | .commandComplete _ => true
  | _ => false

def Backend.isOutcome (m : Backend) : Bool := m.isError || m.isComplete

def Backend.isResult : Backend → Bool
  | .rowDescription _ | .dataRow _ | .commandComplete _ => true
  | _ => false

def Backend.isProgress : Backend → Bool
  | .parseComplete | .bindComplete | .dataRow _ | .commandComplete _ => true
  | _ => false

@[simp] theorem Backend.isReady_ready (st : TxStatus) : (Backend.ready st).isReady = true := rfl

theorem Backend.isReady_iff {m : Backend} : m.isReady = true ↔ ∃ st, m = .ready st := by
  cases m <;> simp [Backend.isReady]

end DsqlEmulator.Wire
