import CodeGraph.Proofs.Embedding.Outcome
import CodeGraph.Proofs.Store.Calls

/-!
# An embedding job among other calls

Between two steps of an embedding job others may call the store. A `Turn` is a step of the
job, with the answer that it gets if it asks for vectors, or a call, and `after` takes turns,
the latest of a list first.

The job keeps in mind what it has scanned by ids, and ids are given anew once the
store has been wiped.

* `stepped`: a step of the job turns to another stage, scans, takes an answer, or
  writes a vector or is refused.
* `keys_prefix_of_after_append`: unless it is wiped, a store keeps its nodes where they are.
* `traced`: what the job has in hand was scanned, sent and answered before (`Origin`).
* `writes_where_scanned`: so a vector goes to the node whose code was sent for it, or the job stops,
  unless the store has been wiped in between.
* `not_writes_where_scanned_reusedId`: if it has, the vector may end up in any other node.
-/

namespace CodeGraph

/-- An embedder that answers this. -/
def Embedder.replying (dimensions : Nat) (answer : BatchAnswer) : Embedder Id :=
  .ofBatch "replying" dimensions fun _ => answer

namespace EmbeddingJob

/-- A job on its way and the store that it shares. -/
structure Moment where
  progress : Progress
  store : Store
deriving DecidableEq

/-- What may happen next. -/
inductive Turn
  /-- The job takes a step, which gets this answer if it asks for vectors. -/
  | step (answer : BatchAnswer)
  /-- Another calls the store. -/
  | call (c : Store.Call)

/-- Take a turn. A call that is refused leaves the store as it was, a step that is
refused stops the job. -/
def Turn.take (job : EmbeddingJob) (dimensions : Nat) (m : Moment) : Turn → Except StoreError Moment
  | step answer =>
    (Id.run (job.step (Embedder.replying dimensions answer) m.progress m.store)).map
      fun (p, s) => ⟨p, s⟩
  | call c => .ok { m with store := (m.store.settled (c.perform m.store)).2 }

/-- Where turns lead, the latest first, from a store that a job has made its index in. -/
def after (job : EmbeddingJob) (dimensions : Nat) (s : Store) : List Turn → Except StoreError Moment
  | [] => .ok ⟨{}, s⟩
  | t :: earlier => (job.after dimensions s earlier).bind (t.take job dimensions)

/-! ## Where a vector comes from -/

section

variable (job : EmbeddingJob) (dimensions : Nat) (s : Store)

/-- A scan before the turns `since` found the node under the id. -/
def Scanned (turns since : List Turn) (id : NodeId) (n : Node) : Prop :=
  ∃ answer earlier m, turns = since ++ .step answer :: earlier ∧
    job.after dimensions s earlier = .ok m ∧
    m.progress.stage = .scanning ∧ m.store.state.graph.nodes[id]? = some n

/-- What is sent of a method with this code, for the second time if `cut`. -/
def textOf (code : String) (cut : Bool) : String :=
  if cut then Text.truncate job.tokensPerText code else code

/-- The job is about to send the code of the node that a scan found under the id, at
this place of a batch. -/
structure Asked (turns since : List Turn) (i : Nat) (id : NodeId) (n : Node) : Prop where
  scanned : job.Scanned dimensions s turns since id n
  asking : ∃ m batch texts cut code, job.after dimensions s turns = .ok m ∧
    m.progress.stage = .asking batch texts cut ∧ batch[i]? = some id ∧ n.methodCode? = some code ∧
    texts[i]? = some (job.textOf code cut)

/-- The embedder answered this vector to the code of the node that a scan before the turns
`since` found under the id. -/
def Origin (turns since : List Turn) (id : NodeId) (n : Node) (v : List Single) : Prop :=
  ∃ later vectors before between i, turns = later ++ .step (.ok vectors) :: before ∧
    since = later ++ .step (.ok vectors) :: between ∧ job.Asked dimensions s before between i id n ∧
    vectors[i]? = some v

/-- What the job has in hand at a stage. -/
def Traced (turns : List Turn) : Stage → Prop
  | .scanning | .finished => True
  | .asking batch texts cut => ∀ (i : Nat) (id : NodeId), batch[i]? = some id → ∃ since n code,
      job.Scanned dimensions s turns since id n ∧ n.methodCode? = some code ∧
        texts[i]? = some (job.textOf code cut)
  | .writing pending _ => ∀ x ∈ pending, ∃ since n, job.Origin dimensions s turns since x.1 n x.2

end

variable {job : EmbeddingJob} {dimensions : Nat} {s : Store} {turns since : List Turn}
  {m m' : Moment} {id : NodeId} {n : Node} {v : List Single}

theorem Scanned.cons (h : job.Scanned dimensions s turns since id n) (t : Turn) :
    job.Scanned dimensions s (t :: turns) (t :: since) id n := by
  obtain ⟨answer, earlier, m, rfl, hscan⟩ := h
  exact ⟨answer, earlier, m, rfl, hscan⟩

theorem Origin.cons (h : job.Origin dimensions s turns since id n v) (t : Turn) :
    job.Origin dimensions s (t :: turns) (t :: since) id n v := by
  obtain ⟨later, vectors, before, between, i, rfl, rfl, hasked⟩ := h
  exact ⟨t :: later, vectors, before, between, i, rfl, rfl, hasked⟩

/-- A vector that has been answered has been scanned for. -/
theorem Origin.scanned (h : job.Origin dimensions s turns since id n v) :
    job.Scanned dimensions s turns since id n := by
  obtain ⟨later, vectors, before, between, i, rfl, rfl, ⟨⟨answer, earlier, m, rfl, hscan⟩, -⟩, -⟩ :=
    h
  exact ⟨answer, earlier, m, by rw [List.append_assoc, List.cons_append], hscan⟩

theorem Traced.cons {stage : Stage} (h : job.Traced dimensions s turns stage) (t : Turn) :
    job.Traced dimensions s (t :: turns) stage := by
  cases stage with
  | scanning | finished => trivial
  | asking batch texts cut =>
    intro i id hi
    obtain ⟨since, n, code, hscanned, hsent⟩ := h i id hi
    exact ⟨t :: since, n, code, hscanned.cons t, hsent⟩
  | writing pending isLast =>
    intro x hx
    obtain ⟨since, n, horigin⟩ := h x hx
    exact ⟨t :: since, n, horigin.cons t⟩

/-! ## Steps -/

theorem after_cons_eq_ok {t : Turn} (h : job.after dimensions s (t :: turns) = .ok m') :
    ∃ m, job.after dimensions s turns = .ok m ∧ t.take job dimensions m = .ok m' := by
  rw [after] at h
  cases hafter : job.after dimensions s turns with
  | error e =>
    rw [hafter] at h
    cases h
  | ok m =>
    rw [hafter] at h
    exact ⟨m, rfl, h⟩

/-- A scan finds methods with their codes, or the job finishes. -/
theorem scan_of_connected (hs : s.connected) (job : EmbeddingJob) (p : Progress) :
    job.scan p s = .ok { p with stage := .finished } ∨
    ∃ (batch : List (NodeId × String)) (report : EmbeddingReport),
      (∀ x ∈ batch, x ∈ s.state.graph.codedMethods) ∧
      job.scan p s = .ok ⟨.asking (batch.map (·.1)) (batch.map (·.2)) false,
        p.scanned + batch.length, report⟩ := by
  obtain ⟨page, hpage, hcoded⟩ := Store.scan_codeAttribute hs p.scanned job.batchSize
  simp only [scan, hpage, bind, Except.bind]
  split
  case isTrue => exact .inl rfl
  case isFalse =>
    refine .inr ⟨page.map fun n => (n.id, codeOf n),
      { p.report with methods := p.report.methods + page.length }, fun x hx => ?_, ?_⟩
    · rw [hcoded] at hx
      exact List.mem_of_mem_drop (List.mem_of_mem_take hx)
    · rw [List.map_map, List.map_map, List.length_map]
      rfl

/-- A vector is written where its id leads now. -/
theorem write_of_connected (hs : s.connected) (p : Progress) (rest : List (NodeId × List Single))
    (isLast : Bool) (hid : id < 0xffffffff) :
    write p ((id, v) :: rest) isLast s =
      if id < s.state.graph.nodes.size then
        .ok ({ p with
          stage := .writing rest isLast
          report := { p.report with embedded := p.report.embedded + 1 } }, s.writeVector (id, v))
      else .error (.unknownNode id) := by
  by_cases hlt : id < s.state.graph.nodes.size
  case pos =>
    have hposition : s.state.graph.position? id = some id :=
      Graph.position?_eq_some.2 ⟨Graph.slot?_of_lt hid, hlt⟩
    rw [write, if_pos hlt, Store.setAttribute_embeddingAttribute (x := (id, v)) hs hposition]
    rfl
  case neg =>
    have hposition : s.state.graph.position? id = none := by
      rw [Graph.position?, Graph.slot?_of_lt hid, Option.filter_some, if_neg (by simpa using hlt)]
    rw [write, if_neg hlt, Store.setAttribute_of_position?_eq_none hs hposition]
    rfl

/-- What a step of the job may come to. -/
inductive Stepped (job : EmbeddingJob) (dimensions : Nat) (answer : BatchAnswer) (m : Moment) :
    Except StoreError Moment → Prop
  | turned {stage : Stage} (hstage : stage = .scanning ∨ stage = .finished) :
      Stepped job dimensions answer m (.ok { m with progress := { m.progress with stage } })
  | scanned {batch : List (NodeId × String)} {report : EmbeddingReport}
      (hstage : m.progress.stage = .scanning)
      (hbatch : ∀ x ∈ batch, x ∈ m.store.state.graph.codedMethods) :
      Stepped job dimensions answer m (.ok { m with
        progress :=
          ⟨.asking (batch.map (·.1)) (batch.map (·.2)) false, m.progress.scanned + batch.length,
            report⟩ })
  | received {batch : List NodeId} {texts : List String} {cut : Bool}
      (hstage : m.progress.stage = .asking batch texts cut) :
      Stepped job dimensions answer m
        (.ok { m with progress := job.receive dimensions m.progress batch texts cut answer })
  | wrote {id i : NodeId} {v : List Single} {rest : List (NodeId × List Single)} {isLast : Bool}
      {report : EmbeddingReport} (hstage : m.progress.stage = .writing ((id, v) :: rest) isLast) :
      Stepped job dimensions answer m
        (.ok ⟨{ m.progress with stage := .writing rest isLast, report },
          m.store.writeVector (i, v)⟩)
  | refused {id : NodeId} {v : List Single} {rest : List (NodeId × List Single)} {isLast : Bool}
      (hstage : m.progress.stage = .writing ((id, v) :: rest) isLast)
      (hnone : m.store.state.graph.node? id = none) :
      Stepped job dimensions answer m (.error (.unknownNode id))

/-- **What a step comes to.** -/
theorem stepped (hs : m.store.connected) (answer : BatchAnswer) :
    Stepped job dimensions answer m ((Turn.step answer).take job dimensions m) := by
  obtain ⟨⟨stage, scanned, report⟩, s⟩ := m
  cases stage with
  | scanning =>
    change Stepped _ _ _ _ (((job.scan _ s).map (·, s)).map _)
    rcases scan_of_connected hs job ⟨.scanning, scanned, report⟩ with
      hscan | ⟨batch, report', hbatch, hscan⟩
    · rw [hscan]
      exact .turned (.inr rfl)
    · rw [hscan]
      exact .scanned rfl hbatch
  | asking batch texts cut => exact .received rfl
  | finished => exact .turned (.inr rfl)
  | writing pending isLast =>
    cases pending with
    | nil =>
      cases isLast with
      | false => exact .turned (.inl rfl)
      | true => exact .turned (.inr rfl)
    | cons x rest =>
      obtain ⟨id, v⟩ := x
      change Stepped _ _ _ _ ((write _ ((id, v) :: rest) isLast s).map _)
      cases hposition : s.state.graph.position? id with
      | none =>
        rw [write, Store.setAttribute_of_position?_eq_none hs hposition]
        exact .refused rfl (Graph.position?_eq_none_iff.1 hposition)
      | some i =>
        rw [write, Store.setAttribute_of_position? hs hposition]
        exact .wrote rfl

theorem keys_writeVector (s : Store) (x : NodeId × List Single) :
    (s.writeVector x).state.graph.keys = s.state.graph.keys :=
  s.state.graph.keys_modify x.1 fun a => a.insert embeddingAttribute (.vector x.2)

end EmbeddingJob

namespace Store.Call

theorem eq_ok_of_writing {α : Type} {r : Except StoreError (α × Store)} {reply : α → Reply}
    {answer : Reply} {s' : Store} (h : writing r reply = .ok (answer, s')) :
    ∃ a, r = .ok (a, s') := by
  cases r with
  | error e => cases h
  | ok p => cases h; exact ⟨p.1, rfl⟩

/-- Only a wipe removes nodes. -/
theorem keys_prefix_of_perform {c : Call} {s s' : Store} {answer : Reply} (hc : c ≠ .wipe)
    (h : c.perform s = .ok (answer, s')) : s.state.graph.keys <+: s'.state.graph.keys := by
  cases c with
  | wipe => exact absurd rfl hc
  | mergeNode key given =>
    obtain ⟨id, hid⟩ := eq_ok_of_writing h
    rw [mergeNode_eq_ok hid]
    exact (Graph.extends_mergeNode _ key given).keys
  | mergeEdge start target relation =>
    obtain ⟨id, hid⟩ := eq_ok_of_writing h
    obtain ⟨a, b, graph, isNew, hmerge, rfl⟩ := mergeEdge_eq_ok hid
    exact (Graph.extends_mergeEdge hmerge).keys
  | setAttribute id name value =>
    rw [perform] at h
    obtain ⟨⟨⟩, hset⟩ := eq_ok_of_writing h
    obtain ⟨i, -, rfl⟩ := setAttribute_eq_ok hset
    exact (s.state.graph.keys_modify i fun a => a.insert name value).symm ▸ List.prefix_rfl
  | createIndex | dropIndex =>
    rw [perform] at h
    obtain ⟨_, hindex⟩ := eq_ok_of_writing h
    obtain ⟨-, state, hstate, rfl⟩ := write_eq_ok.1 hindex
    cases hstate
    exact List.prefix_rfl
  | save files path savedAt =>
    cases hsave : s.saveTo files path savedAt with
    | error e =>
      rw [perform, hsave] at h
      cases h
    | ok files =>
      rw [perform, hsave] at h
      cases h
      exact List.prefix_rfl
  | _ => exact eq_of_reading h ▸ List.prefix_rfl

end Store.Call

namespace EmbeddingJob

variable {job : EmbeddingJob} {dimensions : Nat} {s : Store} {turns since : List Turn}
  {m m' : Moment} {id : NodeId} {n : Node} {v : List Single}

theorem connected_take (hs : m.store.connected) {t : Turn} (ht : t.take job dimensions m = .ok m') :
    m'.store.connected := by
  cases t with
  | step answer =>
    have hstep : Stepped job dimensions answer m _ := stepped hs answer
    rw [ht] at hstep
    cases hstep <;> exact hs
  | call c =>
    cases ht
    cases hc : c.perform m.store with
    | error e => exact hs
    | ok p => exact (Store.Call.connected_of_perform hc).trans hs

theorem connected_after (hs : s.connected) (h : job.after dimensions s turns = .ok m) :
    m.store.connected := by
  induction turns generalizing m with
  | nil => cases h; exact hs
  | cons t earlier ih =>
    obtain ⟨m₀, hm₀, htake⟩ := after_cons_eq_ok h
    exact connected_take (ih hm₀) htake

/-- Unless it is wiped, a store keeps its nodes where they are. -/
theorem keys_prefix_of_take (hs : m.store.connected) {t : Turn}
    (ht : t.take job dimensions m = .ok m') (hwipe : t ≠ .call .wipe) :
    m.store.state.graph.keys <+: m'.store.state.graph.keys := by
  cases t with
  | step answer =>
    have hstep : Stepped job dimensions answer m _ := stepped hs answer
    rw [ht] at hstep
    cases hstep with
    | wrote => exact (keys_writeVector ..).symm ▸ List.prefix_rfl
    | _ => exact List.prefix_rfl
  | call c =>
    cases ht
    cases hc : c.perform m.store with
    | error e => exact List.prefix_rfl
    | ok p => exact Store.Call.keys_prefix_of_perform (fun heq => hwipe (congrArg _ heq)) hc

theorem keys_prefix_of_after_append (hs : s.connected) {earlier : List Turn}
    (hwipe : .call .wipe ∉ since) (hearlier : job.after dimensions s earlier = .ok m)
    (hafter : job.after dimensions s (since ++ earlier) = .ok m') :
    m.store.state.graph.keys <+: m'.store.state.graph.keys := by
  induction since generalizing m' with
  | nil =>
    cases hearlier.symm.trans hafter
    exact List.prefix_rfl
  | cons t since ih =>
    rw [List.mem_cons, not_or] at hwipe
    obtain ⟨m₀, hm₀, htake⟩ := after_cons_eq_ok hafter
    exact (ih hwipe.2 hm₀).trans
      (keys_prefix_of_take (connected_after hs hm₀) htake (Ne.symm hwipe.1))

/-- Where a node was scanned there still is one of its key, unless the store has
been wiped since. -/
theorem Scanned.key (hs : s.connected) (h : job.Scanned dimensions s turns since id n)
    (hwipe : .call .wipe ∉ since) (hafter : job.after dimensions s turns = .ok m) :
    m.store.state.graph.keys[id]? = some n.nodeKey := by
  obtain ⟨answer, earlier, m₀, rfl, hm₀, -, hn⟩ := h
  have hsince : .call .wipe ∉ since ++ [.step answer] := by simpa using hwipe
  have hprefix := keys_prefix_of_after_append hs hsince hm₀
    (by rw [List.append_assoc]; exact hafter)
  obtain ⟨rest, hrest⟩ := hprefix
  have hkey : m₀.store.state.graph.keys[id]? = some n.nodeKey := by
    rw [Graph.getElem?_keys, hn]; rfl
  rw [← hrest, List.getElem?_append_left (List.getElem?_eq_some_iff.1 hkey).1, hkey]

/-! ## Runs -/

theorem traced_scan {batch : List (NodeId × String)} (answer : BatchAnswer)
    (hafter : job.after dimensions s turns = .ok m) (hstage : m.progress.stage = .scanning)
    (hbatch : ∀ x ∈ batch, x ∈ m.store.state.graph.codedMethods) :
    job.Traced dimensions s (.step answer :: turns)
      (.asking (batch.map (·.1)) (batch.map (·.2)) false) := by
  intro i id hid
  rw [List.getElem?_map] at hid
  obtain ⟨x, hx, rfl⟩ := Option.map_eq_some_iff.1 hid
  obtain ⟨n, hn, hcode⟩ := Graph.mem_codedMethods.1 (hbatch x (List.mem_of_getElem? hx))
  refine ⟨[], n, x.2, ⟨answer, turns, m, rfl, hafter, hstage, hn⟩, hcode, ?_⟩
  rw [List.getElem?_map, hx]
  rfl

theorem traced_receive {batch : List NodeId} {texts : List String} {cut : Bool}
    (answer : BatchAnswer) (hafter : job.after dimensions s turns = .ok m)
    (hstage : m.progress.stage = .asking batch texts cut)
    (h : job.Traced dimensions s turns (.asking batch texts cut)) :
    job.Traced dimensions s (.step answer :: turns)
      (job.receive dimensions m.progress batch texts cut answer).stage := by
  cases answer with
  | ok vectors =>
    rw [receive]
    split
    case isFalse => trivial
    case isTrue =>
      intro x hx
      obtain ⟨i, hi⟩ := List.mem_iff_getElem?.1 hx
      obtain ⟨hid, hv⟩ := List.getElem?_zip_eq_some.1 hi
      obtain ⟨since, n, code, hscanned, hcode, htext⟩ := h i x.1 hid
      exact ⟨.step (.ok vectors) :: since, n, [], vectors, turns, since, i, rfl, rfl,
        ⟨hscanned, m, batch, texts, cut, code, hafter, hstage, hid, hcode, htext⟩, hv⟩
  | error e =>
    cases e with
    | tooLong provider reason =>
      rw [receive]
      split
      case isTrue => trivial
      case isFalse hcut =>
        -- the texts are the codes, and now they are cut down
        intro i id hid
        obtain ⟨since, n, code, hscanned, hcode, htext⟩ := h i id hid
        refine ⟨_, n, code, hscanned.cons _, hcode, ?_⟩
        rw [List.getElem?_map, htext, textOf, if_neg hcut]
        rfl
    | _ => trivial

/-- **What the job has in hand was scanned, sent and answered before.** -/
theorem traced (hs : s.connected) (h : job.after dimensions s turns = .ok m) :
    job.Traced dimensions s turns m.progress.stage := by
  induction turns generalizing m with
  | nil => cases h; trivial
  | cons t earlier ih =>
    obtain ⟨m₀, hm₀, htake⟩ := after_cons_eq_ok h
    have hbefore := ih hm₀
    cases t with
    | call c =>
      cases htake
      exact hbefore.cons _
    | step answer =>
      have hstep : Stepped job dimensions answer m₀ _ := stepped (connected_after hs hm₀) answer
      rw [htake] at hstep
      cases hstep with
      | turned hstage => rcases hstage with rfl | rfl <;> trivial
      | scanned hstage hbatch => exact traced_scan answer hm₀ hstage hbatch
      | received hstage => exact traced_receive answer hm₀ hstage (hstage ▸ hbefore)
      | @wrote id i v rest isLast report hstage =>
        rw [hstage] at hbefore
        have hrest : job.Traced dimensions s earlier (.writing rest isLast) :=
          fun x hx => hbefore x (List.mem_cons_of_mem _ hx)
        exact hrest.cons (.step answer)

theorem exists_of_take_eq_error (hs : m.store.connected) {t : Turn} {e : StoreError}
    (h : t.take job dimensions m = .error e) :
    ∃ id v rest isLast, m.progress.stage = .writing ((id, v) :: rest) isLast ∧
      m.store.state.graph.node? id = none ∧ e = .unknownNode id := by
  cases t with
  | call c => cases h
  | step answer =>
    have hstep : Stepped job dimensions answer m _ := stepped hs answer
    rw [h] at hstep
    cases hstep with
    | refused hstage hnone => exact ⟨_, _, _, _, hstage, hnone, rfl⟩

/-- **A vector goes to the node whose code was sent for it**, unless the store has been wiped
since that was scanned. If it has, the vector goes to the node that has got the id, whichever
it is, or there is none and the job stops; it does not stop for anything else. A graph has
room for `2 ^ 32 - 1` nodes. -/
theorem writes_where_scanned (job : EmbeddingJob) (dimensions : Nat) (hs : s.connected)
    (h : job.after dimensions s turns = .ok m) :
    (∀ id v rest isLast, m.progress.stage = .writing ((id, v) :: rest) isLast → id < 0xffffffff →
      ∃ since n, job.Origin dimensions s turns since id n v ∧
        ((∃ n', m.store.state.graph.nodes[id]? = some n' ∧
          (.call .wipe ∉ since → n'.nodeKey = n.nodeKey) ∧
          ∀ answer, (Turn.step answer).take job dimensions m = .ok
            ⟨{ m.progress with
              stage := .writing rest isLast
              report := { m.progress.report with embedded := m.progress.report.embedded + 1 } },
              m.store.writeVector (id, v)⟩) ∨
        (m.store.state.graph.nodes[id]? = none ∧ .call .wipe ∈ since ∧
          ∀ answer, (Turn.step answer).take job dimensions m = .error (.unknownNode id)))) ∧
    ∀ (t : Turn) (e : StoreError), t.take job dimensions m = .error e →
      ∃ id v rest isLast, m.progress.stage = .writing ((id, v) :: rest) isLast ∧
        m.store.state.graph.node? id = none ∧ e = .unknownNode id := by
  have hconnected := connected_after hs h
  refine ⟨fun id v rest isLast hstage hid => ?_, fun t e he =>
    exists_of_take_eq_error hconnected he⟩
  have htraced := traced hs h
  rw [hstage] at htraced
  obtain ⟨since, n, horigin⟩ := htraced (id, v) List.mem_cons_self
  refine ⟨since, n, horigin, ?_⟩
  have htake (answer : BatchAnswer) : (Turn.step answer).take job dimensions m =
      (write m.progress ((id, v) :: rest) isLast m.store).map fun (p, s) => ⟨p, s⟩ := by
    rw [Turn.take, step, hstage]
    rfl
  rw [write_of_connected hconnected _ _ _ hid] at htake
  cases hn : m.store.state.graph.nodes[id]? with
  | some n' =>
    rw [if_pos (Array.getElem?_eq_some_iff.1 hn).1] at htake
    refine .inl ⟨n', rfl, fun hwipe => ?_, htake⟩
    have hkey := horigin.scanned.key hs hwipe h
    rw [Graph.getElem?_keys, hn] at hkey
    exact Option.some.inj hkey
  | none =>
    rw [if_neg (Nat.not_lt.2 (Array.getElem?_eq_none_iff.1 hn))] at htake
    refine .inr ⟨rfl, by_contra fun hwipe => ?_, htake⟩
    have hkey := horigin.scanned.key hs hwipe h
    rw [Graph.getElem?_keys, hn] at hkey
    cases hkey

/-- A method is scanned and its vector answered, and another node is merged before it is written. -/
theorem writes_where_scanned_mergedBetween :
    let job := ofSizes "methodEmbeddings" 1 2
    let v : List Single := [⟨0x3f800000⟩]
    let turns := [.call (.mergeNode ⟨.classType, "B"⟩ Dict.empty), .step (.ok [v]), .step (.ok [])]
    ∃ m, codedStore.connected ∧ job.after 1 codedStore turns = .ok m ∧
      m.progress.stage = .writing [(0, v)] false ∧
      ∃ since n n', job.Origin 1 codedStore turns since 0 n v ∧
        m.store.state.graph.nodes[0]? = some n' ∧
        n'.nodeKey = n.nodeKey ∧ ∀ answer, ∃ p,
          (Turn.step answer).take job 1 m = .ok ⟨p, m.store.writeVector (0, v)⟩ := by
  intro job v turns
  obtain ⟨m, hm, hstage⟩ : ∃ m, job.after 1 codedStore turns = .ok m ∧
      m.progress.stage = .writing [(0, v)] false := ⟨_, rfl, by decide +kernel⟩
  obtain ⟨since, n, horigin, hwrite⟩ :=
    (writes_where_scanned job 1 rfl hm).1 0 v [] false hstage (by decide)
  have hwipe : .call .wipe ∉ since := by
    obtain ⟨answer, earlier, -, hturns, -⟩ := horigin.scanned
    intro hmem
    have hall : .call .wipe ∈ turns := hturns ▸ List.mem_append_left _ hmem
    simp [turns] at hall
  obtain ⟨n', hn', hkey, htake⟩ := hwrite.resolve_right fun h => hwipe h.2.1
  exact ⟨m, rfl, hm, hstage, since, n, n', horigin, hn', hkey hwipe, fun answer =>
    ⟨_, htake answer⟩⟩

/-- The vector of a method that was scanned before a wipe is written to a type that
has got its id since. -/
theorem not_writes_where_scanned_reusedId :
    ¬∀ (job : EmbeddingJob) (dimensions : Nat) (s : Store) (turns since : List Turn) (m m' : Moment)
      (id : NodeId) (n : Node) (v : List Single) (rest : List (NodeId × List Single))
      (isLast : Bool) (answer : BatchAnswer), s.connected → job.after dimensions s turns = .ok m →
        m.progress.stage = .writing ((id, v) :: rest) isLast →
        job.Origin dimensions s turns since id n v →
        (Turn.step answer).take job dimensions m = .ok m' →
        m'.store.state.graph.keys[id]? = some n.nodeKey := by
  intro hall
  let job := ofSizes "methodEmbeddings" 1 2
  let v : List Single := [⟨0x3f800000⟩]
  let since : List Turn :=
    [.call (.mergeNode ⟨.classType, "B"⟩ Dict.empty), .call .wipe, .step (.ok [v])]
  let n : Node := ⟨.method, "A.m()", Dict.ofList [("code", .text "void m() { }")]⟩
  have horigin : job.Origin 1 codedStore (since ++ [.step (.ok [])]) since 0 n v := by
    refine ⟨since.take 2, [v], [.step (.ok [])], [], 0, rfl, rfl,
      ⟨⟨.ok [], [], _, rfl, rfl, rfl, ?_⟩, _, [0], ["void m() { }"], false, "void m() { }", rfl, ?_,
        rfl, ?_, ?_⟩, rfl⟩
    all_goals decide +kernel
  -- the store was wiped and holds one type
  let m : Moment := ⟨⟨.writing [(0, v)] false, 1, { methods := 1 }⟩,
    ⟨⟨⟨#[Graph.freshNode ⟨.classType, "B"⟩], #[]⟩, Dict.empty⟩, true⟩⟩
  let m' : Moment := ⟨⟨.writing [] false, 1, { methods := 1, embedded := 1 }⟩,
    m.store.writeVector (0, v)⟩
  have hafter : job.after 1 codedStore (since ++ [.step (.ok [])]) = .ok m := by decide +kernel
  have htake : (Turn.step (.ok [])).take job 1 m = .ok m' := by decide +kernel
  have hkey :=
    hall job 1 codedStore _ since m m' 0 n v [] false (.ok []) rfl hafter rfl horigin htake
  revert hkey
  decide +kernel

end EmbeddingJob

end CodeGraph
