import DsqlEmulator.Proxy.Act
import DsqlEmulator.Runs

/-! A session between a client and an upstream that answers in order.  Every act
of either pump, every message the client sends and every answer of the upstream
is one step, in any order. -/

namespace DsqlEmulator.Proxy

open Wire Occ Txn Runs

/-- The answer to a message that draws one `ReadyForQuery` ends with it, and no
other message of an answer is one. -/
def Answers (m : Frontend) (ms : List Backend) : Prop :=
  ∃ pre : List Backend, (∀ x ∈ pre, x.isReady = false) ∧
    ((m.drawsReady = true ∧ ∃ st, ms = pre ++ [.ready st]) ∨ (m.drawsReady = false ∧ ms = pre))

/-- A backend: what it may answer to a message, by a choice of its own. -/
structure Upstream where
  State : Type
  Choice : Type
  init : State
  answer : State → Frontend → Choice → State × List Backend
  answers : ∀ st m c, Answers m (answer st m c).2

/-- The backend that may answer anything. -/
def Upstream.any : Upstream where
  State := Unit
  Choice := List Backend × TxStatus
  init := ()
  answer _ m c := ((), c.1.filter (!·.isReady) ++ if m.drawsReady then [.ready c.2] else [])
  answers _ m c := by
    refine ⟨c.1.filter (!·.isReady), by simp, ?_⟩
    cases h : m.drawsReady <;> simp

structure World (U : Upstream) where
  sess : Session
  up : U.State
  /-- Sent by the client and not read yet. -/
  inbox : List Frontend := []
  /-- How many of the client's messages the frontend pump has read; the next one
  it reads gets this number. -/
  read : Nat := 0
  front : List Act := []
  back : List Act := []
  /-- Written upstream and not answered yet. -/
  toUp : List Request := []
  /-- Answers the backend pump has not read yet. -/
  fromUp : List Reply := []
  sent : List Frontend := []
  got : List Delivery := []
  written : List Request := []
  said : List Reply := []
  fates : List Fate := []
  armings : List Armed := []

inductive Label (U : Upstream) : Type
  | send (m : Frontend)
  | readClient
  | front (now : Nat) (jobID : String)
  | readUpstream
  | back
  | answer (c : U.Choice)

variable {U : Upstream}

def Label.act (w : World U) : Label U → Option Act
  | .front _ _ => w.front.head?
  | .back => w.back.head?
  | _ => none

theorem Label.act_front {w : World U} {now : Nat} {jobID : String} {a : Act} {rest : List Act}
    (h : w.front = a :: rest) : (Label.front now jobID : Label U).act w = some a := by
  rw [Label.act, h, List.head?_cons]

theorem Label.act_back {w : World U} {a : Act} {rest : List Act} (h : w.back = a :: rest) :
    (Label.back : Label U).act w = some a := by
  rw [Label.act, h, List.head?_cons]

def Label.jobID : Label U → Option String
  | .front _ jobID => some jobID
  | _ => none

def World.start (D : Dialect) (U : Upstream) : World U where
  sess := .new D
  up := U.init

def World.applyFront (w : World U) (rest : List Act) (e : Effect) : World U :=
  { w with sess := e.sess, front := e.next ++ rest, toUp := w.toUp ++ e.up,
           got := w.got ++ e.client,
           written := w.written ++ e.up, fates := w.fates ++ e.fates, armings :=
             w.armings ++ e.armed }

def World.applyBack (w : World U) (rest : List Act) (e : Effect) : World U :=
  { w with sess := e.sess, back := e.next ++ rest, toUp := w.toUp ++ e.up, got := w.got ++ e.client,
           written := w.written ++ e.up, fates := w.fates ++ e.fates, armings :=
             w.armings ++ e.armed }

def World.applyAnswer (w : World U) (q : Request) (rest : List Request)
    (a : U.State × List Backend) : World U :=
  { w with up := a.1, toUp := rest, fromUp := w.fromUp ++ a.2.map (Reply.mk q.origin),
           said := w.said ++ a.2.map (Reply.mk q.origin) }

def step (D : Dialect) (l : Label U) (w : World U) : Option (World U) :=
  match l with
  | .send m => some { w with inbox := w.inbox ++ [m], sent := w.sent ++ [m] }
  | .readClient =>
    match w.front, w.inbox with
    | [], m :: rest =>
      if w.sess.closed then none
      else some { w with front := pumpFrontend w.read m, inbox := rest, read := w.read + 1 }
    | _, _ => none
  | .front now jobID =>
    match w.front with
    | a :: rest => some (w.applyFront rest (a.exec D now jobID w.sess))
    | [] => none
  | .readUpstream =>
    match w.back, w.fromUp with
    | [], r :: rest =>
      if w.sess.closed then none else some { w with back := pumpBackend r, fromUp := rest }
    | _, _ => none
  | .back =>
    match w.back with
    | a :: rest => some (w.applyBack rest (a.exec D 0 "" w.sess))
    | [] => none
  | .answer c =>
    match w.toUp with
    | q :: rest => some (w.applyAnswer q rest (U.answer w.up q.msg c))
    | [] => none

def system (D : Dialect) (U : Upstream) : System (World U) (Label U) where
  init := .start D U
  step := step D

def fronts (k : Nat) : List (Label U) := List.replicate k (.front 0 "")

def backs (k : Nat) : List (Label U) := List.replicate k .back

end DsqlEmulator.Proxy
