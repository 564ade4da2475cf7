import EndpointRules.Engine
import EndpointRules.Proofs.Machine.Reuse

/-!
# Calls of a resolver do not depend on each other

All calls of a resolver share its cache of URIs, and nothing else passes from one call to the next.
Since no evaluation can tell what a cache holds, a resolver replies to every call as if it were the
first one, and as if no URIs were kept.
-/

namespace EndpointRules

namespace Resolver

/-! ## Calls -/

/-- What a resolver can be asked for. -/
inductive Call
  | run (context : Context) (parameters : Parameters)
  | resolveEndpoint (context : Context) (parameters : Parameters)

/-- What a resolver replies.  Endpoints and values are compared by what they are, URIs in them by
    their texts. -/
inductive Reply
  | answer (result : Except Failure Answer)
  | endpoint (result : Except Failure Endpoint)

/-- The reply to a call. -/
def reply (r : Resolver) : Call → Reply
  | .run context parameters => .answer (r.run context parameters).1
  | .resolveEndpoint context parameters => .endpoint (r.resolveEndpoint context parameters).1

/-- The resolver after a call. -/
def after (r : Resolver) : Call → Resolver
  | .run context parameters => (r.run context parameters).2.2
  | .resolveEndpoint context parameters => (r.resolveEndpoint context parameters).2.2

/-- The replies to calls that are made one after the other. -/
def replies (r : Resolver) : List Call → List Reply
  | [] => []
  | call :: calls => r.reply call :: (r.after call).replies calls

variable {r r' : Resolver}

/-! ## What passes from call to call -/

/-- A call changes at most the cache. -/
@[simp] theorem setup_after (r : Resolver) (call : Call) : (r.after call).setup = r.setup := by
  cases call with
  | run context parameters => rfl
  | resolveEndpoint context parameters => rfl

theorem fst_resolveEndpoint (r : Resolver) (context : Context) (parameters : Parameters) :
    (r.resolveEndpoint context parameters).1 = (r.run context parameters).1.bind endpointOf :=
  rfl

theorem run_eq_of_setup_eq (h : r.setup = r'.setup) (context : Context)
    (parameters : Parameters) :
    (r.run context parameters).1 = (r'.run context parameters).1 := by
  obtain ⟨result, m, m', hr, hr', -⟩ := Machine.exists_evaluate r.setup context parameters
    (Machine.start r.setup (some r.cache)) (Machine.start r'.setup (some r'.cache))
  have hrun : (r.run context parameters).1 = result := by
    simp only [run, hr]
  have hrun' : (r'.run context parameters).1 = result := by
    rw [h] at hr'
    simp only [run, hr']
  rw [hrun, hrun']

/-- Resolvers that are set up alike reply alike, whatever their caches hold. -/
theorem reply_eq_of_setup_eq (h : r.setup = r'.setup) (call : Call) :
    r.reply call = r'.reply call := by
  cases call with
  | run context parameters =>
    rw [reply, reply, run_eq_of_setup_eq h]
  | resolveEndpoint context parameters =>
    rw [reply, reply, fst_resolveEndpoint, fst_resolveEndpoint, run_eq_of_setup_eq h]

/-- To each of several calls a resolver replies as one that is set up alike does to this call
    alone. -/
theorem replies_eq_map_of_setup_eq (h : r.setup = r'.setup) (calls : List Call) :
    r.replies calls = calls.map r'.reply := by
  induction calls generalizing r with
  | nil => rfl
  | cons call calls ih =>
    have hafter : (r.after call).setup = r'.setup := (setup_after r call).trans h
    rw [replies, List.map_cons, reply_eq_of_setup_eq h, ih hafter]

/-- A resolver replies to each of its calls as a new resolver of the program that keeps no URIs
    replies to its first call, whatever has been registered with the engine and however many URIs
    the resolver keeps. -/
theorem replies_make (e : Engine) (p : Program) (capacity : Nat) (mode : Trace.Mode)
    (calls : List Call) :
    (make e p capacity mode).replies calls = calls.map (make e p 0 mode).reply := by
  have hsetup : (make e p capacity mode).setup = (make e p 0 mode).setup := rfl
  exact replies_eq_map_of_setup_eq hsetup calls

end Resolver

end EndpointRules
