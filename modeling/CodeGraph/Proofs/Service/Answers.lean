import CodeGraph.Service.Handling

/-!
# Answers of the service

Whatever a request asks for, answering it either leaves all as it was, or empties the store or
indexes a project, and in the latter two cases a snapshot is written (`answered`).
-/

namespace CodeGraph.Service

open Json

/-- A request and the response to it. -/
structure Exchange where
  request : Request
  response : Response

namespace Exchange

/-- A project was indexed. -/
def accepted (e : Exchange) : Bool :=
  match e.request.route with
  | .ok .index => e.response.status == 202
  | _ => false

/-- The graph was emptied. -/
def resets (e : Exchange) : Bool :=
  match e.request.route with
  | .ok .reset => e.response.status == 200
  | _ => false

/-- Since the last time that the graph was emptied a project was indexed; the latest
exchange comes first. -/
def indexed (log : List Exchange) : Bool := (log.takeWhile (!·.resets)).any (·.accepted)

end Exchange

variable {W : Type} (v : Service (StateM W)) {r : Request} {st : State}

/-- What answering a request comes to: nothing, an emptied store or an indexed project. -/
inductive Answered (v : Service (StateM W)) (r : Request) (st : State) :
    Response × State × Bool → Prop
  | same {response : Response} (haccepted : Exchange.accepted ⟨r, response⟩ = false)
      (hresets : Exchange.resets ⟨r, response⟩ = false) : Answered v r st (response, st, false)
  | reset {response : Response} {store : Store} (hresets : Exchange.resets ⟨r, response⟩ = true)
      (hwipe : st.store.wipe = .ok ((), store)) (w : W) :
      Answered v r st (response, ((v.persist { st with store }).run w).1, false)
  | index {response : Response} {path : String} {report : IndexReport} {store : Store}
      (haccepted : Exchange.accepted ⟨r, response⟩ = true)
        (hdirectory : isDirectory st.files path = true)
      (hindex : st.store.indexProject v.settings.indexing v.parse st.files path =
        .ok (report, store)) (w : W) :
      Answered v r st (response, ((v.persist { st with store }).run w).1, v.embedder.isSome)

/-- What a response carries is of no matter. -/
theorem Answered.withoutContent {response : Response} {st' : State} {follows : Bool}
    (h : Answered v r st (response, st', follows)) :
    Answered v r st (response.withoutContent, st', follows) := by
  have haccepted : Exchange.accepted ⟨r, response.withoutContent⟩ =
      Exchange.accepted ⟨r, response⟩ := rfl
  have hresets : Exchange.resets ⟨r, response.withoutContent⟩ = Exchange.resets ⟨r, response⟩ := rfl
  cases h with
  | same haccepted' hresets' => exact .same (haccepted.trans haccepted') (hresets.trans hresets')
  | reset hresets' hwipe w => exact .reset (hresets.trans hresets') hwipe w
  | index haccepted' hdirectory hindex w =>
    exact .index (haccepted.trans haccepted') hdirectory hindex w

/-! ## Routes -/

theorem Exchange.accepted_of_route {response : Response} {route : Route}
    (hroute : r.route = .ok route) :
    accepted ⟨r, response⟩ = (route == .index && response.status == 202) := by
  rw [accepted, hroute]
  cases route <;> rfl

theorem Exchange.resets_of_route {response : Response} {route : Route}
    (hroute : r.route = .ok route) :
    resets ⟨r, response⟩ = (route == .reset && response.status == 200) := by
  rw [resets, hroute]
  cases route <;> rfl

/-- A project is not indexed and the graph emptied at once. -/
theorem Exchange.resets_eq_false_of_accepted {e : Exchange} (h : e.accepted = true) :
    e.resets = false := by
  unfold accepted at h
  split at h
  case h_1 hroute => rw [resets, hroute]
  case h_2 => cases h

/-- A route answers some methods only. -/
theorem method_mem_of_route {route : Route} (h : r.route = .ok route) :
    r.method ∈ route.methods := by
  unfold Request.route at h
  split at h
  case h_1 => cases h
  case h_2 =>
    split at h
    case isTrue hmem =>
      cases h
      exact List.contains_iff_mem.1 hmem
    case isFalse => cases h

/-- A document that is turned away is so for what is wrong with it. -/
theorem status_of_decode {α : Type} {d : Decoder α} {away : Response}
    (h : r.decode d = .error away) :
    away.status = 400 ∨ away.status = 415 ∨ away.status = 422 := by
  unfold Request.decode at h
  split at h
  case isFalse =>
    cases h
    exact .inr (.inl rfl)
  case isTrue =>
    split at h
    case h_1 => cases h
    case h_2 =>
      cases h
      exact .inl rfl
    case h_3 =>
      cases h
      exact .inr (.inr rfl)

/-- A request that only looks, or that is turned away, changes nothing. -/
theorem Answered.of_route {response : Response} {route : Route} (hroute : r.route = .ok route)
    (hindex : route = .index → response.status ≠ 202)
    (hreset : route = .reset → response.status ≠ 200) :
    Answered v r st (response, st, false) := by
  refine .same ?_ ?_
  · rw [Exchange.accepted_of_route hroute]
    cases route <;> simp_all
  · rw [Exchange.resets_of_route hroute]
    cases route <;> simp_all

theorem answered_index (q : IndexRequest) (hroute : r.route = .ok .index) (w : W) :
    Answered v r st ((v.answerIndex q st).run w).1 := by
  unfold answerIndex
  dsimp only
  cases hdirectory : isDirectory st.files (Text.trimmed q.projectRoot) with
  | false =>
    exact .of_route v hroute (fun _ => (by decide : (400 : Nat) ≠ 202)) (fun h => by cases h)
  | true =>
    rw [if_neg (by simp)]
    cases hindex : st.store.indexProject v.settings.indexing v.parse st.files
      (Text.trimmed q.projectRoot) with
    | error e =>
      exact .of_route v hroute (fun _ => (by decide : (500 : Nat) ≠ 202)) (fun h => by cases h)
    | ok p =>
      obtain ⟨report, store⟩ := p
      exact .index (by rw [Exchange.accepted_of_route hroute]; rfl) hdirectory hindex w

theorem answered_reset (hroute : r.route = .ok .reset) (w : W) :
    Answered v r st (((v.answerReset st).run w).1.1, ((v.answerReset st).run w).1.2, false) := by
  unfold answerReset
  cases hwipe : st.store.wipe with
  | error e =>
    exact .of_route v hroute (fun h => by cases h) (fun _ => (by decide : (500 : Nat) ≠ 200))
  | ok p =>
    obtain ⟨⟨⟩, store⟩ := p
    exact .reset (by rw [Exchange.resets_of_route hroute]; rfl) hwipe w

theorem answered_route {route : Route} (hroute : r.route = .ok route) (w : W) :
    Answered v r st ((v.answerRoute r st route).run w).1 := by
  cases route with
  | query =>
    rw [answerRoute]
    cases r.decode QueryRequest.decoder with
    | error away => exact .of_route v hroute (fun h => by cases h) (fun h => by cases h)
    | ok q => exact .of_route v hroute (fun h => by cases h) (fun h => by cases h)
  | chat =>
    rw [answerRoute]
    cases r.decode ChatRequest.decoder with
    | error away => exact .of_route v hroute (fun h => by cases h) (fun h => by cases h)
    | ok q => exact .of_route v hroute (fun h => by cases h) (fun h => by cases h)
  | index =>
    rw [answerRoute]
    cases hdecode : r.decode IndexRequest.decoder with
    | error away =>
      refine .of_route v hroute (fun _ => ?_) (fun h => by cases h)
      have hstatus := status_of_decode hdecode
      omega
    | ok q => exact answered_index v q hroute w
  | reset => exact answered_reset v hroute w
  | isEmpty => exact .of_route v hroute (fun h => by cases h) (fun h => by cases h)
  | health => exact .of_route v hroute (fun h => by cases h) (fun h => by cases h)

/-- A request without a route changes nothing. -/
theorem Answered.of_ne_ok (h : ∀ route, r.route ≠ .ok route) (response : Response) :
    Answered v r st (response, st, false) := by
  cases hroute : r.route with
  | error away => exact .same (by rw [Exchange.accepted, hroute]) (by rw [Exchange.resets, hroute])
  | ok route => exact absurd hroute (h route)

/-- **Answering a request** leaves all as it was, empties the store or indexes a project. -/
theorem answered (w : W) : Answered v r st ((v.answer r st).run w).1 := by
  unfold answer
  by_cases hoptions : r.method = "OPTIONS"
  case pos =>
    rw [if_pos hoptions]
    refine .of_ne_ok v (fun route hroute => ?_) _
    have hmem := hoptions ▸ method_mem_of_route hroute
    cases route <;> exact absurd hmem (by decide)
  case neg =>
    rw [if_neg hoptions]
    cases hroute : r.route with
    | error away => exact .of_ne_ok v (fun route h => by cases hroute.symm.trans h) away
    | ok route =>
      have hanswered : Answered v r st ((v.answerRoute r st route).run w).1 :=
        answered_route v hroute w
      by_cases hhead : r.method = "HEAD"
      case pos =>
        simp only [if_pos hhead]
        exact hanswered.withoutContent
      case neg =>
        simp only [if_neg hhead]
        exact hanswered

/-- Whether the graph is empty is read off the store. -/
theorem answer_isEmpty (hmethod : r.method = "GET") (hpath : r.path = "/api/graph/empty") (w : W) :
    (v.answer r st).run w = ((answerIsEmpty st, st, false), w) := by
  have hroute : r.route = .ok .isEmpty := by
    rw [Request.route, hpath, hmethod]
    rfl
  rw [answer, if_neg (by rw [hmethod]; decide), hroute]
  have hhead : r.method ≠ "HEAD" := by
    rw [hmethod]
    decide
  simp only [answerRoute, if_neg hhead]
  rfl

end CodeGraph.Service
