import TraceArchive.Proofs.Service.Alone
import TraceArchive.Proofs.Service.Commits

/-!
# Replaying a request

Among others a request got the answers that it would get alone, in any session
in which what it read and the identifier that it took are the same. So until it
writes it can as well be run then as a whole.
-/

namespace TraceArchive

/-! ## Steady collaborators -/

namespace Steady

/-- Whether the experiments that exist under some conditions still do. -/
def Upholds (steady : Steady) (conditions : Conditions) : Prop :=
  ∀ identifier, conditions.catalog identifier = .answered true →
    steady.catalog identifier = .answered true

/-- Whether catalog and authorizer answer so under some conditions. -/
structure Answers (steady : Steady) (conditions : Conditions) : Prop where
  catalog : conditions.catalog = steady.catalog
  authorizer : conditions.authorizer = steady.authorizer

theorem Answers.upholds
    {steady : Steady} {conditions : Conditions}
    (answers : steady.Answers conditions) : steady.Upholds conditions :=
  fun _ found => answers.catalog ▸ found

/-- Whether an answer is one of these collaborators, or one of the cache that
they confirm. -/
def Gives (steady : Steady) (exchange : Exchange) : Prop :=
  match exchange with
  | ⟨.recallExperiment identifier, answer⟩ =>
      answer = true → steady.catalog identifier = .answered true
  | ⟨.lookUpExperiment identifier, answer⟩ =>
      answer = steady.catalog identifier
  | ⟨.authorize location principal, answer⟩ =>
      answer = steady.authorizer location principal
  | _ => True

end Steady

theorem Exchange.answer_of_found?
    {exchange : Exchange} {identifier : String}
    (found : exchange.found? = some identifier) :
    exchange = ⟨.lookUpExperiment identifier, .answered true⟩ := by
  obtain ⟨call, answer⟩ := exchange
  cases call with
  | lookUpExperiment asked =>
      rcases answer with (_ | _) | fault | _
      · cases found
      · cases found
        rfl
      · cases found
      · cases found
  | _ => cases found

/-! ## What holds in a session -/

/-- Whether what a request has learnt is so in a session. -/
structure Knowledge.HoldsIn (known : Knowledge) (session : Session) :
    Prop where
  read : ∀ id found, known.reading = some (id, found) →
    session.store.get? id = found
  allocated : ∀ identifier, known.allocated = some identifier →
    session.ids.allocate.2 = .ok identifier

namespace Request

variable {settings : Settings} {request : Request} {known : Knowledge}
  {exchange : Exchange} {session : Session}

/-- A request reads once and takes one identifier, so what it knew before an
answer still counts afterwards. -/
theorem holdsIn_before
    (demanded : (request.contract settings).demands known exchange.call)
    (holds : (known.learn exchange.call exchange.answer).HoldsIn session) :
    known.HoldsIn session where
  read id found before := holds.read id found (reading_kept demanded before)
  allocated identifier before :=
    holds.allocated identifier (allocated_kept demanded before)

/-- An answer after which a request goes on is that of the session in which it
holds, and changes nothing there but the source of identifiers. -/
theorem admits_of_holdsIn
    {steady : Steady} {reached : Session}
    (demanded : (request.contract settings).demands known exchange.call)
    (underway :
      (known.learn exchange.call exchange.answer).stage = .underway)
    (holds : (known.learn exchange.call exchange.answer).HoldsIn session)
    (gives : steady.Gives exchange) (sameStore : reached.store = session.store)
    (sameIds : known.allocated = none → reached.ids = session.ids) :
    steady.contract.admits reached exchange.call exchange.answer ∧
      (reached.next exchange.call exchange.answer).store = session.store ∧
        ((known.learn exchange.call exchange.answer).allocated = none →
          (reached.next exchange.call exchange.answer).ids = session.ids) := by
  obtain ⟨call, answer⟩ := exchange
  cases call with
  | allocateId =>
      rcases answer with identifier | fault | _
      · have given := holds.allocated identifier rfl
        rw [← sameIds demanded.2.1] at given
        refine ⟨?_, sameStore, fun untouched => nomatch untouched⟩
        change _ = Outcome.ofExcept reached.ids.allocate.2
        rw [given]
        rfl
      · cases underway
      · cases underway
  | readTrace id =>
      rcases answer with found | fault | _
      · have isFound := holds.read id found rfl
        rw [← sameStore] at isFound
        exact ⟨congrArg Outcome.answered isFound.symm, sameStore, sameIds⟩
      · cases underway
      · cases underway
  | recallExperiment identifier =>
      cases answer with
      | false => exact ⟨gives, sameStore, sameIds⟩
      | true => exact ⟨gives, sameStore, sameIds⟩
  | lookUpExperiment identifier =>
      rcases answer with (_ | _) | fault | _
      · cases underway
      · exact ⟨gives, sameStore, sameIds⟩
      · cases underway
      · cases underway
  | rememberExperiment identifier => exact ⟨trivial, sameStore, sameIds⟩
  | authorize location principal =>
      rcases answer with (_ | _) | fault | _
      · cases underway
      · exact ⟨gives, sameStore, sameIds⟩
      · cases underway
      · cases underway
  | createTrace trace =>
      rcases answer with record | fault | _
      · cases underway
      · cases underway
      · cases underway
  | replaceTrace id expected trace =>
      rcases answer with record | fault | _
      · cases underway
      · cases underway
      · cases underway

end Request

/-! ## Steady traffic -/

/-- The worlds that requests leave, as long as the experiments that were found
meanwhile still exist. -/
inductive World.Reachable (steady : Steady) : World → Prop
  | initial (ids : IdSequence) : Reachable steady (World.initial ids)
  | served {world : World} {Client : Type} [DecidableEq Client]
      (settings : Settings) (requests : Client → Request)
      {turns : List (Turn Client)} :
      Reachable steady world →
      (∀ turn ∈ turns, steady.Upholds turn.conditions) →
      Reachable steady ((Traffic.start settings requests world).run turns).world

namespace Traffic

variable {Client : Type} [DecidableEq Client] {settings : Settings}
  {requests : Client → Request} {world : World} {steady : Steady}

/-- The cache and the clients know only experiments that the catalog
confirms. -/
structure Confirmed (steady : Steady) (traffic : Traffic Client) : Prop where
  cache : steady.Confirms traffic.world.cache
  clients : ∀ client, ∀ identifier ∈ (traffic.knowledge client).found,
    steady.catalog identifier = .answered true

omit [DecidableEq Client] in
theorem gives_event
    {traffic : Traffic Client} {turn : Turn Client}
    (confirmed : steady.Confirms traffic.world.cache)
    (answers : steady.Answers turn.conditions) (call : Call) :
    steady.Gives (traffic.event turn call).toExchange := by
  cases call with
  | recallExperiment identifier =>
      intro recalled
      have known := World.known_of_recalled recalled
      exact confirmed identifier (List.mem_of_mem_filter known)
  | lookUpExperiment identifier =>
      refine (World.answer_lookUp identifier).trans ?_
      exact congrFun answers.catalog identifier
  | authorize location principal =>
      refine (World.answer_authorize location principal).trans ?_
      exact congrFun (congrFun answers.authorizer location) principal
  | _ => trivial

omit [DecidableEq Client] in
theorem catalog_of_found?
    {traffic : Traffic Client} {turn : Turn Client} {call : Call}
    {identifier : String}
    (found : (traffic.event turn call).found? = some identifier) :
    turn.conditions.catalog identifier = .answered true := by
  have asked := Exchange.answer_of_found? found
  cases call with
  | lookUpExperiment other =>
      unfold event at asked
      cases (Exchange.mk.inj asked).1
      have answered := eq_of_heq (Exchange.mk.inj asked).2
      exact (World.answer_lookUp _).symm.trans answered
  | _ => cases (Exchange.mk.inj asked).1

theorem confirmed_run
    (confirms : steady.Confirms world.cache) (turns : List (Turn Client))
    (upholds : ∀ turn ∈ turns, steady.Upholds turn.conditions) :
    Confirmed steady ((start settings requests world).run turns) := by
  refine run_induction (Confirmed steady) ⟨confirms, ?_⟩ turns ?_
  · intro client identifier found
    cases found
  · intro earlier turn later call resume split confirmed isNext
    have upholdsNow := upholds turn (by simp [split])
    have demanded := demands_next isNext
    refine ⟨?_, ?_⟩
    · refine Steady.confirms_answer ?_ _ _ call ?_
      · exact fun identifier known =>
          confirmed.cache identifier (List.mem_of_mem_filter known)
      · rintro identifier rfl
        exact confirmed.clients turn.client identifier demanded.2
    · intro client identifier found
      by_cases same : client = turn.client
      · subst same
        rw [knowledge_afterCall_self, Knowledge.learn_found,
          List.mem_append] at found
        rcases found with now | before
        · have isFound := Option.mem_toList.mp now
          exact upholdsNow identifier (catalog_of_found? isFound)
        · exact confirmed.clients turn.client identifier before
      · rw [knowledge_afterCall_of_ne same] at found
        exact confirmed.clients client identifier found

/-- Whether a request that is under way got the answers that it would get alone
in any session in which what it has learnt holds. -/
def Replays (steady : Steady) (traffic : Traffic Client)
    (client : Client) : Prop :=
  (traffic.knowledge client).stage = .underway →
    ∀ session, (traffic.knowledge client).HoldsIn session →
      let reached :=
        steady.contract.follow session (traffic.exchanges client)
      steady.contract.AdmitsAll session (traffic.exchanges client) ∧
        reached.store = session.store ∧
          ((traffic.knowledge client).allocated = none →
            reached.ids = session.ids)

theorem replays_run
    (confirms : steady.Confirms world.cache) (turns : List (Turn Client))
    (answers : ∀ turn ∈ turns, steady.Answers turn.conditions)
    (client : Client) :
    Replays steady ((start settings requests world).run turns) client := by
  refine run_induction (fun reached => Replays steady reached client) ?_ turns
    ?_
  · intro _ session _
    exact ⟨Contract.AdmitsAll.nil, rfl, fun _ => rfl⟩
  · intro earlier turn later call resume split replays isNext
    by_cases same : client = turn.client
    · subst same
      have confirmed :
          Confirmed steady ((start settings requests world).run earlier) :=
        confirmed_run confirms earlier
          fun turn member => (answers turn (by simp [split, member])).upholds
      have gives :=
        gives_event confirmed.cache (answers turn (by simp [split])) call
      have demanded := demands_next isNext
      intro underway session holds
      rw [knowledge_afterCall_self] at underway holds ⊢
      rw [exchanges_afterCall_self]
      obtain ⟨admitted, sameStore, sameIds⟩ :=
        replays demanded.1 session (Request.holdsIn_before demanded holds)
      obtain ⟨admits, nextStore, nextIds⟩ :=
        Request.admits_of_holdsIn demanded underway holds gives sameStore
          sameIds
      refine ⟨admitted.concat admits, ?_, ?_⟩
      · rw [Contract.follow_append]
        exact nextStore
      · rw [Contract.follow_append]
        exact nextIds
    · intro underway session holds
      rw [knowledge_afterCall_of_ne same] at underway holds ⊢
      rw [exchanges_afterCall_of_ne same]
      exact replays underway session holds

end Traffic

theorem World.Reachable.confirms
    {steady : Steady} {world : World} (reachable : world.Reachable steady) :
    steady.Confirms world.cache := by
  induction reachable with
  | initial ids =>
      intro identifier known
      cases known
  | served settings requests _ upholds inductionHypothesis =>
      exact (Traffic.confirmed_run inductionHypothesis _ upholds).cache

end TraceArchive
