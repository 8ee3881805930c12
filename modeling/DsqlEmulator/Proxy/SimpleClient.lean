import DsqlEmulator.Proxy.Agreement
import DsqlEmulator.Proxy.SimpleQueries

/-! What a client of one-statement queries may rely on, in every order of the steps: it is told
how each query has gone, once, and what it is told is what the upstream has done. -/

namespace DsqlEmulator.Proxy

open Wire Occ Txn Runs Classify Postgres

variable {U : Upstream} {D : Dialect} {parse : String → Option (List Statement)}
  {T : Transacts U parse} {A : Commits T}

theorem rest_new (D : Dialect) (A : Commits T) : Rest D A (.new D) U.init [] where
  repair := rfl
  awake := rfl
  inFlight _ h := by cases h
  running := T.skips_init
  kept _ h := by cases h
  numbered := Commits.Numbered.init
  hidden := rfl
  failure := rfl
  pending := rfl
  agrees := by rw [Transacts.opened, T.status_init]; rfl
  aborted h := by cases h
  doomed h := by cases h
  condemned h := by cases h

theorem tag_of_lone {m : Frontend} (h : Lone D parse m) : m.tag = .query := by
  cases m with
  | query sql => rfl
  | _ => cases h

theorem progress_simple (hD : KnowsLone D parse) {w : World U × List Nat}
    (hw : Reach ((system D U).watched [] (simple D A).note)
      (fun l w => (simple D A).Allows l w.1) w) :
    Progress D (simple D A) (Rest D A) (Candid D A) w.1 w.2 :=
  progress (rest_new D A) (fun _ hm => tag_of_lone hm) Candid.readies
    (fun n h hm => handled_query n hD h hm) hw

theorem exists_progress (hD : KnowsLone D parse) {w : World U}
    (hw : Reach (system D U) (simple D A).Allows w) :
    ∃ g, Progress D (simple D A) (Rest D A) (Candid D A) w g := by
  obtain ⟨g, hw⟩ := hw.exists_watched [] (simple D A).note
  exact ⟨g, progress_simple hD hw⟩

section Samples

instance : DecidablePred (simple D A).sends := inferInstanceAs (DecidablePred (Lone D parse))

instance : DecidablePred (simple D A).names :=
  fun jobID => inferInstanceAs (Decidable ('*' ∉ jobID.toList))

instance (u : U.State) (q : Request) (c : U.Choice) : Decidable ((simple D A).answers u q c) :=
  inferInstanceAs (Decidable (T.Carries u q.msg c))

theorem obliging_transacts (parse : String → Option (List Statement)) :
    Obliging (transacts parse) := by
  intro srv m hskip hasks
  have hawake : Server.skipping srv = false := hskip
  refine ⟨[], ?_⟩
  cases m with
  | query sql =>
    have hruns : (transacts parse).runs srv (.query sql) [] = attempts (Server.status srv)
        ((parse sql).getD []) [] := by
      simp [transacts, Server.runs, hawake]
    unfold Transacts.Carries
    rw [hruns, statementsOf]
    obtain hsingle | hrestart := hasks
    · cases hparse : parse sql with
      | none => simp [attempts]
      | some ss =>
        simp only [single, hparse, Option.all_some, Bool.and_eq_true, decide_eq_true_eq] at hsingle
        obtain ⟨s, rfl⟩ := List.length_eq_one_iff.1 hsingle.1
        have hstrays : s.strays = false := by simpa using hsingle.2
        have hbegin : s = .begin → (attempt (Server.status srv) s {}).failed = true →
            Server.status srv = .failed := by
          rintro rfl
          simp [attempt, Statement.allowed]
        have hone : attempts (Server.status srv) [s] [] = [attempt (Server.status srv) s {}] := by
          rw [attempts, attempts, ite_self]
          rfl
        rw [Option.getD_some, hone, List.forall_mem_singleton, Run.strays]
        refine ⟨?_, rfl⟩
        cases hfailed : (attempt (Server.status srv) s {}).failed with
        | false => simp [attempt, hstrays]
        | true => simpa [attempt, hstrays] using fun hs => hbegin hs hfailed
    · simp [hrestart, attempts, attempt, Statement.allowed, Run.left, Statement.completed,
        Run.strays, Statement.strays]
  | _ => cases hasks

theorem knowsLone_turning : KnowsLone .turning turnStatements where
  toKnows := knows_turning
  shadow_single i hi _ := by
    obtain ⟨sql, h⟩ := hi
    by_cases hinsert : sql = "INSERT INTO t VALUES (1)"
    · subst hinsert
      cases h
      rfl
    · by_cases hselect : sql = "SELECT * FROM t FOR UPDATE"
      · subst hselect
        cases h
        rfl
      · simp [Dialect.turning, Dialect.over, Dialect.sample, List.lookup_cons,
          beq_false_of_ne hinsert, beq_false_of_ne hselect] at h
  rewrite_single sql r h := by cases h

def conflictRepaired : List (Label (upstream turnStatements)) :=
  List.flatten [[.send (.query "BEGIN"), .readClient], fronts 8, [.answer [], .readUpstream],
    backs 6, .readUpstream :: backs 8,
    [.send (.query "INSERT INTO t VALUES (1)"), .readClient], fronts 14,
      [.answer [], .readUpstream], backs 1, .readUpstream :: backs 3,
    [.answer [{ error := some { code := "40001", message := "could not serialize access" } }],
      .readUpstream], backs 6,
    .readUpstream :: backs 9, [.answer [], .readUpstream], backs 1, .readUpstream :: backs 5,
    [.send (.query "COMMIT"), .readClient], fronts 11, [.answer [], .readUpstream], backs 2,
      .readUpstream :: backs 5]

def repairedWorld : World (upstream turnStatements) :=
  (system .turning (upstream turnStatements)).dest (simple .turning (commits turnStatements)).Allows
    conflictRepaired

end Samples

/-- Queries that have each been answered candidly before the next was sent. -/
abbrev Recounts (D : Dialect) (A : Commits T) : List Frontend → List Delivery → U.State → Prop :=
  Dialogue (Candid D A) U.init

/-- A query that is not answered yet is never stuck: one of the pumps or the upstream can take a
step. -/
theorem query_unstuck (A : Commits T) (hD : KnowsLone D parse) (hT : Obliging T) {w : World U}
    (hw : Reach (system D U) (simple D A).Allows w)
    (hleft : w.sent.length ≠ w.got.countP (·.msg.isReady)) :
    ∃ l w', (∀ m, l ≠ .send m) ∧ (simple D A).Allows l w ∧ (system D U).step l w = some w' := by
  obtain ⟨g, hprogress⟩ := exists_progress hD hw
  exact hprogress.enabled ⟨"", by simp [simple]⟩ (fun h => hT _ _ h.1 h.2.2) Candid.readies
    (queries (fun _ hm => tag_of_lone hm) hw).closed hleft

theorem query_unstuck_begun :
    let w := (system .turning (upstream turnStatements)).dest
      (simple .turning (commits turnStatements)).Allows
      (.send (.query "BEGIN") :: .readClient :: fronts 8)
    w.sent.length ≠ w.got.countP (·.msg.isReady) ∧ ∃ l w', (∀ m, l ≠ .send m) ∧
      (simple .turning (commits turnStatements)).Allows l w ∧
      (system .turning (upstream turnStatements)).step l w = some w' := by
  intro w
  have hleft : w.sent.length ≠ w.got.countP (·.msg.isReady) := by decide +kernel
  exact ⟨hleft, query_unstuck _ knowsLone_turning (obliging_transacts _) (Reach.dest _ _) hleft⟩

end DsqlEmulator.Proxy
