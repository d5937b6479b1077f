import RustPipeline.Handling

set_option autoImplicit false

/-!
# The order of the hooks

Which hooks of the middleware are called around one message, with what, and when they wrap the
handler like the layers of an onion.
-/
namespace RustPipeline.MiddlewareOrder
open Handling

variable {F : Type}

/-- A call around one message, with the place at which the middleware was registered. -/
inductive HookCall (F : Type) where
  | pre (place : ℕ) (payload : ValidatedPayload F)
      (verdict : Except PipelineError (PreDispatchVerdict F))
  | handle (payload : ValidatedPayload F)
  | post (place : ℕ) (payload : ValidatedPayload F) (response : HandlerResponse F)

/-- The calls of `preChain` and what it returns; the first argument is the place of the head. -/
def preLoop (m : DispatchMeta) : ℕ → List (Middleware F) → ValidatedPayload F →
    List (HookCall F) × ValidatedPayload F × Option (Except PipelineError (HandlerResponse F))
  | _, [], payload => ([], payload, Option.none)
  | i, mw :: rest, payload =>
    match mw.preDispatch m payload with
    | .ok .continue =>
      let (calls, out) := preLoop m (i + 1) rest payload
      (.pre i payload (.ok .continue) :: calls, out)
    | .ok (.transform new) =>
      let (calls, out) := preLoop m (i + 1) rest new
      (.pre i payload (.ok (.transform new)) :: calls, out)
    | .ok (.shortCircuit response) =>
      ([.pre i payload (.ok (.shortCircuit response))], payload, some (.ok response))
    | .error e => ([.pre i payload (.error e)], payload, some (.error e))

/-- The calls of `postChain` and what it returns, over the reversed list with its places. -/
def postLoop (m : DispatchMeta) (payload : ValidatedPayload F) : List (Middleware F × ℕ) →
    HandlerResponse F → List (HookCall F) × Except PipelineError (HandlerResponse F)
  | [], response => ([], .ok response)
  | (mw, i) :: rest, response =>
    match mw.postDispatch m payload response with
    | .ok (.passThrough new) =>
      let (calls, out) := postLoop m payload rest new
      (.post i payload response :: calls, out)
    | .ok (.replace new) =>
      let (calls, out) := postLoop m payload rest new
      (.post i payload response :: calls, out)
    | .error _ =>
      ([.post i payload response], .error (.handler "middleware post-dispatch error"))

/-- The part of `process_message` between building the context and acting on the result. -/
def processHooks (middleware : List (Middleware F)) (handler : Handler F) (m : DispatchMeta)
    (payload : ValidatedPayload F) (ctx : HandlerContext) :
    List (HookCall F) × Except PipelineError (HandlerResponse F) :=
  let (pres, payload, shortCircuited) := preLoop m 0 middleware payload
  let (handled, result) := match shortCircuited with
    | some result => ([], result)
    | Option.none => ([HookCall.handle payload], handler payload ctx)
  match result with
  | .ok response =>
    let (posts, result) := postLoop m payload middleware.zipIdx.reverse response
    (pres ++ handled ++ posts, result)
  | .error e => (pres ++ handled, .error e)

/-! ## The result -/

theorem preLoop_result (m : DispatchMeta) (i : ℕ) (ms : List (Middleware F))
    (payload : ValidatedPayload F) : (preLoop m i ms payload).2 = preChain m ms payload := by
  induction ms generalizing i payload with
  | nil => rfl
  | cons mw rest ih =>
    rw [preLoop, preChain]
    cases mw.preDispatch m payload with
    | error e => rfl
    | ok verdict =>
      cases verdict with
      | «continue» => exact ih (i + 1) payload
      | transform new => exact ih (i + 1) new
      | shortCircuit response => rfl

theorem postLoop_result (m : DispatchMeta) (payload : ValidatedPayload F)
    (l : List (Middleware F × ℕ)) (response : HandlerResponse F) :
    (postLoop m payload l response).2 = postChain m payload (l.map Prod.fst) response := by
  induction l generalizing response with
  | nil => rfl
  | cons p rest ih =>
    obtain ⟨mw, i⟩ := p
    rw [postLoop, List.map_cons, postChain]
    cases mw.postDispatch m payload response with
    | error e => rfl
    | ok verdict =>
      cases verdict with
      | passThrough new => exact ih new
      | replace new => exact ih new

/-- The call of the handler, unless a hook stood in for it. -/
def handledCalls (payload : ValidatedPayload F)
    (shortCircuited : Option (Except PipelineError (HandlerResponse F))) : List (HookCall F) :=
  if shortCircuited.isNone then [.handle payload] else []

theorem processHooks_eq {middleware : List (Middleware F)} {m : DispatchMeta}
    {payload p : ValidatedPayload F} {pres : List (HookCall F)}
    {short : Option (Except PipelineError (HandlerResponse F))}
    (h : preLoop m 0 middleware payload = (pres, p, short)) (handler : Handler F)
    (ctx : HandlerContext) : processHooks middleware handler m payload ctx =
      match short.getD (handler p ctx) with
      | .ok response => (pres ++ handledCalls p short ++
          (postLoop m p middleware.zipIdx.reverse response).1,
          (postLoop m p middleware.zipIdx.reverse response).2)
      | .error e => (pres ++ handledCalls p short, .error e) := by
  unfold processHooks
  rw [h]
  cases short with
  | none =>
    dsimp only [Option.getD_none, handledCalls]
    cases handler p ctx with
    | ok response => rfl
    | error e => rfl
  | some result =>
    cases result with
    | ok response => rfl
    | error e => rfl

/-- The calls are those of `dispatch`. -/
theorem processHooks_result (middleware : List (Middleware F)) (handler : Handler F)
    (m : DispatchMeta) (payload : ValidatedPayload F) (ctx : HandlerContext) :
    (processHooks middleware handler m payload ctx).2 =
      dispatch middleware handler m payload ctx := by
  have hpre := preLoop_result m 0 middleware payload
  cases h : preLoop m 0 middleware payload with
  | mk pres out =>
    obtain ⟨p, short⟩ := out
    rw [h] at hpre
    rw [processHooks_eq h, dispatch, ← hpre]
    dsimp only
    cases short.getD (handler p ctx) with
    | error e => rfl
    | ok response =>
      have hpost := postLoop_result m p middleware.zipIdx.reverse response
      rwa [List.map_reverse, List.zipIdx_map_fst] at hpost

/-! ## The calls -/

namespace HookCall

def prePlace : HookCall F → Option ℕ
  | .pre i _ _ => some i
  | _ => Option.none

def postPlace : HookCall F → Option ℕ
  | .post i _ _ => some i
  | _ => Option.none

def verdict : HookCall F → Option (Except PipelineError (PreDispatchVerdict F))
  | .pre _ _ v => some v
  | _ => Option.none

/-- The payload a hook puts in place of the one it was given. -/
def transformed : HookCall F → Option (ValidatedPayload F)
  | .pre _ _ (.ok (.transform new)) => some new
  | _ => Option.none

def handled : HookCall F → Option (ValidatedPayload F)
  | .handle p => some p
  | _ => Option.none

end HookCall

/-- `Continue` and `Transform` let the message pass. -/
def Lets (v : Except PipelineError (PreDispatchVerdict F)) : Prop :=
  v = .ok .continue ∨ ∃ new, v = .ok (.transform new)

/-- Every middleware was asked, and every one let the message pass. -/
def AllLet (middleware : List (Middleware F)) (calls : List (HookCall F)) : Prop :=
  (calls.filterMap HookCall.verdict).length = middleware.length ∧
    ∀ v ∈ calls.filterMap HookCall.verdict, Lets v

/-- The calls around one message wrap the handler like an onion. -/
structure Onion (middleware : List (Middleware F)) (payload : ValidatedPayload F)
    (calls : List (HookCall F)) : Prop where
  reversed : (calls.filterMap HookCall.postPlace).Pairwise (· > ·)
  wrapped : ∀ i ∈ calls.filterMap HookCall.postPlace, i ∈ calls.filterMap HookCall.prePlace
  handled : AllLet middleware calls → calls.filterMap HookCall.handled =
    [((calls.filterMap HookCall.transformed).getLast?).getD payload]
  unhandled : ¬ AllLet middleware calls → calls.filterMap HookCall.handled = []

/-! ## Before the handler -/

/-- The payload behind a hook that let the message pass. -/
def nextPayload (payload : ValidatedPayload F) :
    Except PipelineError (PreDispatchVerdict F) → ValidatedPayload F
  | .ok (.transform new) => new
  | _ => payload

/-- What a hook that does not let the message pass puts in place of the handler's answer. -/
inductive StandsIn : Except PipelineError (PreDispatchVerdict F) →
    Except PipelineError (HandlerResponse F) → Prop where
  | shortCircuit (response : HandlerResponse F) :
      StandsIn (.ok (.shortCircuit response)) (.ok response)
  | error (e : PipelineError) : StandsIn (.error e) (.error e)

theorem StandsIn.not_lets {v : Except PipelineError (PreDispatchVerdict F)}
    {result : Except PipelineError (HandlerResponse F)} (h : StandsIn v result) : ¬ Lets v := by
  intro hl
  cases h with
  | shortCircuit response =>
    rcases hl with hl | ⟨new, hl⟩
    · cases hl
    · cases hl
  | error e =>
    rcases hl with hl | ⟨new, hl⟩
    · cases hl
    · cases hl

theorem exists_standsIn {v : Except PipelineError (PreDispatchVerdict F)} (h : ¬ Lets v) :
    ∃ result, StandsIn v result := by
  cases v with
  | error e => exact ⟨_, .error e⟩
  | ok verdict =>
    cases verdict with
    | «continue» => exact absurd (.inl rfl) h
    | transform new => exact absurd (.inr ⟨new, rfl⟩) h
    | shortCircuit response => exact ⟨_, .shortCircuit response⟩

/-- All these hooks let the message pass, and leave the second payload for what comes behind. -/
inductive Passes (m : DispatchMeta) :
    List (Middleware F) → ValidatedPayload F → ValidatedPayload F → Prop where
  | nil (payload : ValidatedPayload F) : Passes m [] payload payload
  | cons {mw : Middleware F} {rest : List (Middleware F)} {payload p : ValidatedPayload F}
      (lets : Lets (mw.preDispatch m payload))
      (behind : Passes m rest (nextPayload payload (mw.preDispatch m payload)) p) :
      Passes m (mw :: rest) payload p

/-- A hook answers for the handler while others, registered behind it, were not yet asked. -/
def ShortsEarly (m : DispatchMeta) (middleware : List (Middleware F))
    (payload : ValidatedPayload F) : Prop :=
  ∃ before mw after p response, middleware = before ++ mw :: after ∧ after ≠ [] ∧
    Passes m before payload p ∧ mw.preDispatch m p = .ok (.shortCircuit response)

/-- What the first loop does with its hooks: `count` of them were asked, from place `i` on. -/
structure Asked (calls : List (HookCall F)) (i count : ℕ) (payload p : ValidatedPayload F) :
    Prop where
  places : calls.filterMap HookCall.prePlace = List.range' i count
  verdicts : (calls.filterMap HookCall.verdict).length = count
  payload : ((calls.filterMap HookCall.transformed).getLast?).getD payload = p
  noPost : calls.filterMap HookCall.postPlace = []
  noHandle : calls.filterMap HookCall.handled = []

theorem Asked.nil (i : ℕ) (payload : ValidatedPayload F) : Asked [] i 0 payload payload :=
  ⟨rfl, rfl, rfl, rfl, rfl⟩

theorem Asked.stop (i : ℕ) (payload : ValidatedPayload F)
    {v : Except PipelineError (PreDispatchVerdict F)} (hv : ¬ Lets v) :
    Asked [.pre i payload v] i 1 payload payload := by
  refine ⟨rfl, rfl, ?_, rfl, rfl⟩
  have ht : HookCall.transformed (.pre i payload v) = Option.none := by
    cases v with
    | error e => rfl
    | ok verdict =>
      cases verdict with
      | «continue» => rfl
      | transform new => exact absurd (.inr ⟨new, rfl⟩) hv
      | shortCircuit response => rfl
  rw [List.filterMap_cons_none ht]
  rfl

theorem Asked.cons {calls : List (HookCall F)} {i count : ℕ} {payload p : ValidatedPayload F}
    {v : Except PipelineError (PreDispatchVerdict F)}
    (h : Asked calls (i + 1) count (nextPayload payload v) p) :
    Asked (.pre i payload v :: calls) i (count + 1) payload p := by
  refine ⟨?_, ?_, ?_, ?_, ?_⟩
  · simp only [List.filterMap_cons, HookCall.prePlace, h.places, List.range'_succ]
  · simp only [List.filterMap_cons, HookCall.verdict, List.length_cons, h.verdicts]
  · rw [← h.payload]
    cases v with
    | error e => rfl
    | ok verdict =>
      cases verdict with
      | «continue» => rfl
      | shortCircuit response => rfl
      | transform new =>
        simp only [List.filterMap_cons, HookCall.transformed, List.getLast?_cons,
          Option.getD_some, nextPayload]
  · rw [List.filterMap_cons_none rfl, h.noPost]
  · rw [List.filterMap_cons_none rfl, h.noHandle]

theorem preLoop_cons {mw : Middleware F} {m : DispatchMeta} {payload : ValidatedPayload F}
    (h : Lets (mw.preDispatch m payload)) (i : ℕ) (rest : List (Middleware F)) :
    preLoop m i (mw :: rest) payload =
      (.pre i payload (mw.preDispatch m payload) ::
        (preLoop m (i + 1) rest (nextPayload payload (mw.preDispatch m payload))).1,
        (preLoop m (i + 1) rest (nextPayload payload (mw.preDispatch m payload))).2) := by
  rw [preLoop]
  rcases h with h | ⟨new, h⟩
  · rw [h]
    rfl
  · rw [h]
    rfl

/-- Where every hook lets the message pass, all are asked and the handler is due. -/
theorem preLoop_of_passes {m : DispatchMeta} {ms : List (Middleware F)}
    {payload p : ValidatedPayload F} (h : Passes m ms payload p) (i : ℕ) :
    ∃ calls, preLoop m i ms payload = (calls, p, Option.none) ∧
      Asked calls i ms.length payload p ∧ ∀ v ∈ calls.filterMap HookCall.verdict, Lets v := by
  induction h generalizing i with
  | nil payload => exact ⟨[], rfl, .nil i payload, by simp⟩
  | cons lets _ ih =>
    obtain ⟨calls, hl, ha, hv⟩ := ih (i + 1)
    refine ⟨_, by rw [preLoop_cons lets, hl], ha.cons, ?_⟩
    intro v hm
    simp only [List.filterMap_cons, HookCall.verdict] at hm
    rcases List.mem_cons.mp hm with rfl | hm
    · exact lets
    · exact hv v hm

/-- Where a hook does not, it is the last one asked. -/
theorem preLoop_of_stop {m : DispatchMeta} {before : List (Middleware F)} {mw : Middleware F}
    {payload p : ValidatedPayload F} (h : Passes m before payload p)
    {result : Except PipelineError (HandlerResponse F)}
    (hstop : StandsIn (mw.preDispatch m p) result) (after : List (Middleware F)) (i : ℕ) :
    ∃ calls, preLoop m i (before ++ mw :: after) payload = (calls, p, some result) ∧
      Asked calls i (before.length + 1) payload p ∧
      ∃ v ∈ calls.filterMap HookCall.verdict, ¬ Lets v := by
  induction h generalizing i with
  | nil payload =>
    have hn := hstop.not_lets
    refine ⟨[.pre i payload (mw.preDispatch m payload)], ?_, .stop i payload hn,
      mw.preDispatch m payload, List.mem_singleton.mpr rfl, hn⟩
    rw [List.nil_append, preLoop]
    generalize mw.preDispatch m payload = v at hstop
    cases hstop with
    | shortCircuit response => rfl
    | error e => rfl
  | cons lets _ ih =>
    obtain ⟨calls, hl, ha, v, hm, hv⟩ := ih hstop (i + 1)
    refine ⟨_, by rw [List.cons_append, preLoop_cons lets, hl], ha.cons, v, ?_, hv⟩
    simp only [List.filterMap_cons, HookCall.verdict]
    exact List.mem_cons_of_mem _ hm

/-- Either every hook lets the message pass, or there is a first one that does not. -/
theorem passes_or_stop (m : DispatchMeta) (ms : List (Middleware F))
    (payload : ValidatedPayload F) : (∃ p, Passes m ms payload p) ∨
      ∃ before mw after p result, ms = before ++ mw :: after ∧ Passes m before payload p ∧
        StandsIn (mw.preDispatch m p) result := by
  induction ms generalizing payload with
  | nil => exact .inl ⟨payload, .nil payload⟩
  | cons mw rest ih =>
    by_cases hl : Lets (mw.preDispatch m payload)
    · rcases ih (nextPayload payload (mw.preDispatch m payload)) with ⟨p, hp⟩ | h
      · exact .inl ⟨p, .cons hl hp⟩
      · obtain ⟨before, mw', after, p, result, rfl, hp, hs⟩ := h
        exact .inr ⟨mw :: before, mw', after, p, result, rfl, .cons hl hp, hs⟩
    · obtain ⟨result, hs⟩ := exists_standsIn hl
      exact .inr ⟨[], mw, rest, payload, result, rfl, .nil payload, hs⟩

/-! ## Behind the handler -/

/-- What the second loop does over `n` middleware: hooks from the last place down, nothing else. -/
structure Answered (calls : List (HookCall F)) (n : ℕ) : Prop where
  places : calls.filterMap HookCall.postPlace <+: (List.range n).reverse
  noPre : calls.filterMap HookCall.prePlace = []
  noVerdict : calls.filterMap HookCall.verdict = []
  noTransform : calls.filterMap HookCall.transformed = []
  noHandle : calls.filterMap HookCall.handled = []

theorem Answered.nil (n : ℕ) : Answered ([] : List (HookCall F)) n :=
  ⟨List.nil_prefix, rfl, rfl, rfl, rfl⟩

theorem postLoop_places (m : DispatchMeta) (payload : ValidatedPayload F)
    (l : List (Middleware F × ℕ)) (response : HandlerResponse F) :
    (postLoop m payload l response).1.filterMap HookCall.postPlace <+: l.map Prod.snd := by
  induction l generalizing response with
  | nil => exact List.nil_prefix
  | cons q rest ih =>
    obtain ⟨mw, i⟩ := q
    rw [postLoop, List.map_cons]
    cases mw.postDispatch m payload response with
    | error e => exact ⟨rest.map Prod.snd, rfl⟩
    | ok verdict =>
      cases verdict with
      | passThrough new => exact (List.prefix_cons_inj i).mpr (ih new)
      | replace new => exact (List.prefix_cons_inj i).mpr (ih new)

theorem postLoop_posts (m : DispatchMeta) (payload : ValidatedPayload F)
    (l : List (Middleware F × ℕ)) (response : HandlerResponse F) :
    ∀ c ∈ (postLoop m payload l response).1, ∃ i r, c = .post i payload r := by
  induction l generalizing response with
  | nil => exact fun c hc => by cases hc
  | cons q rest ih =>
    obtain ⟨mw, i⟩ := q
    rw [postLoop]
    cases mw.postDispatch m payload response with
    | error e =>
      intro c hc
      exact ⟨i, response, List.mem_singleton.mp hc⟩
    | ok verdict =>
      intro c hc
      cases verdict with
      | passThrough new =>
        rcases List.mem_cons.mp hc with rfl | hc
        · exact ⟨i, response, rfl⟩
        · exact ih new c hc
      | replace new =>
        rcases List.mem_cons.mp hc with rfl | hc
        · exact ⟨i, response, rfl⟩
        · exact ih new c hc

/-- The first hook called is the one of the head of the list. -/
theorem mem_postLoop_head (m : DispatchMeta) (payload : ValidatedPayload F)
    (q : Middleware F × ℕ) (rest : List (Middleware F × ℕ)) (response : HandlerResponse F) :
    q.2 ∈ (postLoop m payload (q :: rest) response).1.filterMap HookCall.postPlace := by
  obtain ⟨mw, i⟩ := q
  rw [List.mem_filterMap]
  refine ⟨.post i payload response, ?_, rfl⟩
  rw [postLoop]
  cases mw.postDispatch m payload response with
  | error e => exact List.mem_cons_self
  | ok verdict =>
    cases verdict with
    | passThrough new => exact List.mem_cons_self
    | replace new => exact List.mem_cons_self

theorem answered_postLoop (m : DispatchMeta) (payload : ValidatedPayload F)
    (ms : List (Middleware F)) (response : HandlerResponse F) :
    Answered (postLoop m payload ms.zipIdx.reverse response).1 ms.length := by
  have hposts := postLoop_posts m payload ms.zipIdx.reverse response
  have hnone : ∀ {β : Type} (f : HookCall F → Option β), (∀ i p r, f (.post i p r) = Option.none) →
      (postLoop m payload ms.zipIdx.reverse response).1.filterMap f = [] := by
    intro β f hf
    rw [List.filterMap_eq_nil_iff]
    intro c hc
    obtain ⟨i, r, rfl⟩ := hposts c hc
    exact hf i payload r
  refine ⟨?_, hnone _ fun _ _ _ => rfl, hnone _ fun _ _ _ => rfl, hnone _ fun _ _ _ => rfl,
    hnone _ fun _ _ _ => rfl⟩
  have hp := postLoop_places m payload ms.zipIdx.reverse response
  rwa [List.map_reverse, List.zipIdx_map_snd, ← List.range_eq_range'] at hp

/-- The last middleware is the first to see the answer. -/
theorem last_mem_postLoop (m : DispatchMeta) (payload : ValidatedPayload F)
    {ms : List (Middleware F)} (hne : ms ≠ []) (response : HandlerResponse F) :
    ms.length - 1 ∈
      (postLoop m payload ms.zipIdx.reverse response).1.filterMap HookCall.postPlace := by
  obtain ⟨front, mw, rfl⟩ := (List.eq_nil_or_concat ms).resolve_left hne
  rw [List.concat_eq_append, List.zipIdx_append, List.reverse_append, List.length_append,
    List.length_singleton, Nat.add_sub_cancel]
  have h := mem_postLoop_head m payload (mw, front.length) front.zipIdx.reverse response
  simpa using h

/-! ## The onion -/

theorem onion_of_parts {ms : List (Middleware F)} {payload p : ValidatedPayload F}
    {pres posts : List (HookCall F)} {count : ℕ}
    {short : Option (Except PipelineError (HandlerResponse F))}
    (ha : Asked pres 0 count payload p) (hb : Answered posts ms.length)
    (hall : AllLet ms pres ↔ short = Option.none) :
    Onion ms payload (pres ++ handledCalls p short ++ posts) ↔
      ∀ i ∈ posts.filterMap HookCall.postPlace, i < count := by
  have hhandle : (handledCalls p short).filterMap HookCall.postPlace = [] ∧
      (handledCalls p short).filterMap HookCall.prePlace = [] ∧
      (handledCalls p short).filterMap HookCall.verdict = [] ∧
      (handledCalls p short).filterMap HookCall.transformed = [] := by
    cases short with
    | none => exact ⟨rfl, rfl, rfl, rfl⟩
    | some result => exact ⟨rfl, rfl, rfl, rfl⟩
  obtain ⟨h1, h2, h3, h4⟩ := hhandle
  have hposts : (pres ++ handledCalls p short ++ posts).filterMap HookCall.postPlace =
      posts.filterMap HookCall.postPlace := by
    rw [List.filterMap_append, List.filterMap_append, ha.noPost, h1]
    rfl
  have hplaces : (pres ++ handledCalls p short ++ posts).filterMap HookCall.prePlace =
      List.range' 0 count := by
    rw [List.filterMap_append, List.filterMap_append, ha.places, h2, hb.noPre, List.append_nil,
      List.append_nil]
  have hverdicts : (pres ++ handledCalls p short ++ posts).filterMap HookCall.verdict =
      pres.filterMap HookCall.verdict := by
    rw [List.filterMap_append, List.filterMap_append, h3, hb.noVerdict, List.append_nil,
      List.append_nil]
  have htransformed : (pres ++ handledCalls p short ++ posts).filterMap HookCall.transformed =
      pres.filterMap HookCall.transformed := by
    rw [List.filterMap_append, List.filterMap_append, h4, hb.noTransform, List.append_nil,
      List.append_nil]
  have hhandled : (pres ++ handledCalls p short ++ posts).filterMap HookCall.handled =
      (handledCalls p short).filterMap HookCall.handled := by
    rw [List.filterMap_append, List.filterMap_append, ha.noHandle, hb.noHandle, List.append_nil]
    rfl
  have hlet : AllLet ms (pres ++ handledCalls p short ++ posts) ↔ short = Option.none := by
    rw [← hall, AllLet, AllLet, hverdicts]
  constructor
  · intro h i hi
    have hw := h.wrapped i (hposts ▸ hi)
    rw [hplaces, List.mem_range'_1] at hw
    omega
  · intro h
    refine ⟨?_, ?_, ?_, ?_⟩
    · rw [hposts]
      refine List.Pairwise.sublist hb.places.sublist ?_
      rw [List.pairwise_reverse]
      exact List.pairwise_lt_range
    · rw [hposts, hplaces]
      intro i hi
      have := h i hi
      rw [List.mem_range'_1]
      omega
    · intro hal
      rw [hhandled, htransformed, ha.payload, hlet.mp hal]
      rfl
    · intro hal
      rw [hhandled]
      cases short with
      | none => exact absurd (hlet.mpr rfl) hal
      | some result => rfl

/-- The hooks wrap the handler like an onion exactly when no hook answers in its place while
    others behind it were not asked; the hooks of those are called all the same. -/
theorem onion_iff (middleware : List (Middleware F)) (handler : Handler F) (m : DispatchMeta)
    (payload : ValidatedPayload F) (ctx : HandlerContext) :
    Onion middleware payload (processHooks middleware handler m payload ctx).1 ↔
      ¬ ShortsEarly m middleware payload := by
  -- A hook that answers early is the last one asked, whichever way it is found.
  have hearly : ∀ {calls p count short}, preLoop m 0 middleware payload = (calls, p, short) →
      Asked calls 0 count payload p → ShortsEarly m middleware payload →
        count < middleware.length ∧ ∃ r, short = some (.ok r) := by
    intro calls p count short hl ha hs
    obtain ⟨before, mw, after, q, r, rfl, hne, hp, hv⟩ := hs
    obtain ⟨calls', hl', ha', _⟩ := preLoop_of_stop hp
      (hv ▸ StandsIn.shortCircuit r) after 0
    rw [hl, Prod.mk.injEq, Prod.mk.injEq] at hl'
    obtain ⟨rfl, rfl, rfl⟩ := hl'
    have hc : count = before.length + 1 := by
      have := congrArg List.length (ha.places.symm.trans ha'.places)
      rwa [List.length_range', List.length_range'] at this
    have := List.length_pos_iff.mpr hne
    rw [List.length_append, List.length_cons]
    exact ⟨by omega, r, rfl⟩
  rcases passes_or_stop m middleware payload with ⟨p, hp⟩ | h
  · obtain ⟨pres, hl, ha, hv⟩ := preLoop_of_passes hp 0
    have hno : ¬ ShortsEarly m middleware payload := by
      intro hs
      obtain ⟨_, r, hr⟩ := hearly hl ha hs
      cases hr
    have hall : AllLet middleware pres ↔ (Option.none :
        Option (Except PipelineError (HandlerResponse F))) = Option.none :=
      iff_of_true ⟨ha.verdicts, hv⟩ rfl
    refine iff_of_true ?_ hno
    rw [processHooks_eq hl]
    cases (Option.none : Option (Except PipelineError (HandlerResponse F))).getD
        (handler p ctx) with
    | error e =>
      have h := (onion_of_parts ha (.nil middleware.length) hall).mpr fun i hi => by cases hi
      rwa [List.append_nil] at h
    | ok response =>
      have hb := answered_postLoop m p middleware response
      refine (onion_of_parts ha hb hall).mpr fun i hi => ?_
      simpa using hb.places.subset hi
  · obtain ⟨before, mw, after, p, result, rfl, hp, hs⟩ := h
    obtain ⟨pres, hl, ha, v, hv, hvn⟩ := preLoop_of_stop hp hs after 0
    have hall : AllLet (before ++ mw :: after) pres ↔ some result = Option.none :=
      iff_of_false (fun hal => hvn (hal.2 v hv)) (by simp)
    rw [processHooks_eq hl, Option.getD_some]
    cases hs' : result with
    | error e =>
      subst hs'
      have hno : ¬ ShortsEarly m (before ++ mw :: after) payload := by
        intro hs
        obtain ⟨_, r, hr⟩ := hearly hl ha hs
        cases hr
      refine iff_of_true ?_ hno
      have h := (onion_of_parts ha (.nil (before ++ mw :: after).length) hall).mpr
        fun i hi => by cases hi
      rwa [List.append_nil] at h
    | ok response =>
      subst hs'
      have hb := answered_postLoop m p (before ++ mw :: after) response
      have hsome : before ++ mw :: after ≠ [] := by simp
      have hlast := last_mem_postLoop m p hsome response
      dsimp only
      rw [onion_of_parts ha hb hall]
      constructor
      · intro h hs
        have := h _ hlast
        have := (hearly hl ha hs).1
        omega
      · intro h i hi
        by_cases hne : after = []
        · have := hb.places.subset hi
          simpa [hne] using this
        · refine absurd ⟨before, mw, after, p, response, rfl, hne, hp, ?_⟩ h
          generalize mw.preDispatch m p = v at hs
          cases hs
          rfl

/-! ## Two layers -/

/-- Answers every message itself. -/
def blockAll : Middleware F :=
  ⟨fun _ _ => .ok (.shortCircuit .none), fun _ _ r => .ok (.passThrough r)⟩

/-- Both hooks as the trait has them by default. -/
def noOp : Middleware F := ⟨fun _ _ => .ok .continue, fun _ _ r => .ok (.passThrough r)⟩

/-- The hook behind the answer of a middleware is called though the one before it was not. -/
theorem not_onion : ¬ ∀ (middleware : List (Middleware Unit)) (handler : Handler Unit)
    (m : DispatchMeta) (payload : ValidatedPayload Unit) (ctx : HandlerContext),
    Onion middleware payload (processHooks middleware handler m payload ctx).1 := by
  intro h
  have ho := h [blockAll, noOp] (fun _ _ => .ok .none) ⟨"user", "sink", "t", "Greeting"⟩
    ⟨"Greeting", .text "hi"⟩ ⟨"t", .flat "user", .flat "sink", .empty⟩
  have hwrapped := ho.wrapped 1
  revert hwrapped
  decide

end RustPipeline.MiddlewareOrder
