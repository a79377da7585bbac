import OpsKnowledge.Model.Service

/-!
# Parity and cost of provider calls

An entry point that takes an entry of the registry should make the call that the plain entry
point makes with what the entry resolves to, and a call that returned its usage should leave
one cost row.
-/

namespace OpsKnowledge.Model

open OpsKnowledge.Lib

/-- A consumer of a stream stops after `demand` chunks, or never. -/
inductive EntryCall (V : Type) where
  | chat (providerId : Nat) (modelName : String) (messages : List V) (kwargs : Kwargs V)
  | chatByRegistry (registryId : Nat) (messages : List V) (kwargs : Kwargs V)
  | chatByAgent (agent : Agent) (messages : List V) (kwargs : Kwargs V)
  | chatStream (providerId : Nat) (modelName : String) (messages : List V) (kwargs : Kwargs V)
      (demand : Option Nat)
  | chatStreamByRegistry (registryId : Nat) (messages : List V) (kwargs : Kwargs V) (demand : Option Nat)
  | embed (providerId : Nat) (modelName : String) (texts : List String)
  | embedByRegistry (registryId : Nat) (texts : List String)

variable {V : Type}

/-- The calls of adapters and the cost rows. -/
def Outcome.effects {ρ : Type} (o : Outcome V ρ) : List (Request V) × List (CostRecord V) :=
  (o.requests, o.rows)

/-- The provider has returned its usage to the adapter, in a stream with a chunk that was taken. -/
def returnedUsage (env : Env V) (demand : Option Nat) (r : Request V) : Prop :=
  match r.method with
  | .chat _ => ∃ response, env.chat r = .ok response ∧ (truthy response.usage).isSome
  | .chatStream _ => ∃ chunk ∈ taken demand (env.chatStream r).chunks, (truthy chunk.usage).isSome
  | .embed _ => ∃ response, env.embed r = .ok response ∧ (truthy response.usage).isSome

/-- A call of an adapter that returned its usage leads to one cost row. -/
def Counted (env : Env V) (demand : Option Nat) (e : List (Request V) × List (CostRecord V)) : Prop :=
  ∀ r ∈ e.1, returnedUsage env demand r → e.2.length = 1

variable [NatCast V]

namespace EntryCall

def run (env : Env V) : EntryCall V → List (Request V) × List (CostRecord V)
  | .chat providerId modelName messages kwargs =>
    (Model.chat env providerId modelName messages kwargs).effects
  | .chatByRegistry registryId messages kwargs =>
    (Model.chatByRegistry env registryId messages kwargs).effects
  | .chatByAgent agent messages kwargs => (Model.chatByAgent env agent messages kwargs).effects
  | .chatStream providerId modelName messages kwargs demand =>
      (Model.chatStream env providerId modelName messages kwargs demand).effects
  | .chatStreamByRegistry registryId messages kwargs demand =>
      (Model.chatStreamByRegistry env registryId messages kwargs demand).effects
  | .embed providerId modelName texts => (Model.embed env providerId modelName texts).effects
  | .embedByRegistry registryId texts => (Model.embedByRegistry env registryId texts).effects

def demand : EntryCall V → Option Nat
  | .chatStream _ _ _ _ demand => demand
  | .chatStreamByRegistry _ _ _ demand => demand
  | _ => none

/-- The plain call with what the entry of the registry resolves to. -/
def plain (env : Env V) : EntryCall V → Option (EntryCall V)
  | .chatByRegistry registryId messages kwargs =>
      (resolveModel env registryId).toOption.map fun r => .chat r.1 r.2.2 messages kwargs
  | .chatByAgent agent messages kwargs =>
      agent.modelId.bind fun registryId =>
        (resolveModel env registryId).toOption.map fun r => .chat r.1 r.2.2 messages kwargs
  | .chatStreamByRegistry registryId messages kwargs demand =>
      (resolveModel env registryId).toOption.map fun r => .chatStream r.1 r.2.2 messages kwargs demand
  | .embedByRegistry registryId texts =>
      (resolveModel env registryId).toOption.map fun r => .embed r.1 r.2.2 texts
  | _ => none

end EntryCall

section Property

variable (env : Env V) (call : EntryCall V)

def Parity : Prop := ∀ plain, call.plain env = some plain → (call.run env).1 = (plain.run env).1

def CostOnce : Prop := Counted env call.demand (call.run env)

end Property

/-! ## The condition -/

section Condition

variable (env : Env V)

/-- The database takes the cost row of a chat whose answer has a usage. -/
def ChatCounts (providerId : Nat) (provider : ModelProvider V) (model : String) (messages : List V)
    (kwargs : Kwargs V) : Prop :=
  ∀ options response, mergeOptions chatParameters provider.extraConfig kwargs.rest = some options →
    env.chat (provider.request (.chat messages) model options) = .ok response →
      (truthy response.usage).isSome → env.accepts (chatRow env providerId model kwargs response)

/-- A consumer who gets a usage reads on to the end of the stream, where nothing is raised, and the database
takes the cost row. -/
def StreamCounts (providerId : Nat) (provider : ModelProvider V) (extra : Dict String V) (model : String)
    (messages : List V) (kwargs : Kwargs V) (demand : Option Nat) : Prop :=
  ∀ options, mergeOptions chatParameters extra kwargs.rest = some options →
    let stream := env.chatStream (provider.request (.chatStream messages) model options)
    (∃ chunk ∈ taken demand stream.chunks, (truthy chunk.usage).isSome) →
      reachesEnd demand stream.chunks ∧ stream.error = none ∧
        env.accepts (streamRow env providerId model kwargs stream.chunks)

/-- An embedding whose answer has a usage is counted by those rows. -/
def EmbedCounts (provider : ModelProvider V) (model : String) (texts : List String)
    (rows : List (CostRecord V)) : Prop :=
  ∀ options response, mergeOptions embedParameters provider.extraConfig .empty = some options →
    env.embed (provider.request (.embed texts) model options) = .ok response →
      (truthy response.usage).isSome → rows.length = 1

/-- What a call needs for its parity and its cost row. -/
def Fits : EntryCall V → Prop
  | .chat providerId modelName messages kwargs =>
      ∀ provider, env.providers providerId = some provider →
        ChatCounts env providerId provider modelName messages kwargs
  | .chatByRegistry registryId messages kwargs =>
      ∀ r, resolveModel env registryId = .ok r → ChatCounts env r.1 r.2.1 r.2.2 messages kwargs
  | .chatByAgent agent messages kwargs =>
      match agent.modelId with
      | some registryId =>
        ∀ r, resolveModel env registryId = .ok r → ChatCounts env r.1 r.2.1 r.2.2 messages kwargs
      | none =>
        ∀ providerId modelName provider, agent.modelProviderId = some providerId →
          agent.modelName.filter (· ≠ "") = some modelName → env.providers providerId = some provider →
            ChatCounts env providerId provider modelName messages kwargs
  | .chatStream providerId modelName messages kwargs demand =>
      demand ≠ some 0 → ∀ provider, env.providers providerId = some provider →
        StreamCounts env providerId provider provider.extraConfig modelName messages kwargs demand
  | .chatStreamByRegistry registryId messages kwargs demand =>
      demand ≠ some 0 → ∀ r, resolveModel env registryId = .ok r →
        (r.2.1.extraConfig.entries = [] ∨ mergeOptions chatParameters .empty kwargs.rest = none) ∧
          StreamCounts env r.1 r.2.1 .empty r.2.2 messages kwargs demand
  | .embed providerId modelName texts =>
      ∀ provider, env.providers providerId = some provider → cachedVector env modelName texts = none →
        EmbedCounts env provider modelName texts (recordCost env (embedRow env providerId modelName texts))
  | .embedByRegistry registryId texts =>
      ∀ r, resolveModel env registryId = .ok r →
        mergeOptions embedParameters r.2.1.extraConfig .empty ≠ none →
        cachedVector env r.2.2 texts = none ∧ EmbedCounts env r.2.1 r.2.2 texts []

end Condition

/-! ## Cost rows -/

section Counted

variable {env : Env V} {demand : Option Nat} {r : Request V} {rows : List (CostRecord V)}

omit [NatCast V] in
theorem counted_nil : Counted env demand ([], rows) :=
  fun _ hr => nomatch hr

omit [NatCast V] in
theorem counted_singleton :
    Counted env demand ([r], rows) ↔ (returnedUsage env demand r → rows.length = 1) := by
  unfold Counted
  simp

theorem counted_runChat_iff {providerId : Nat} {provider : ModelProvider V} {model : String}
    {messages : List V} {kwargs : Kwargs V} :
    Counted env none (runChat env providerId provider model messages kwargs).effects ↔
      ChatCounts env providerId provider model messages kwargs := by
  unfold runChat ChatCounts
  cases hoptions : mergeOptions chatParameters provider.extraConfig kwargs.rest with
  | none => exact ⟨fun _ _ _ h => (nomatch h), fun _ => counted_nil⟩
  | some options =>
      dsimp only
      cases hanswer : env.chat (provider.request (.chat messages) model options) with
      | error e =>
          refine counted_singleton.trans ?_
          constructor
          · rintro - _ _ ⟨⟩ hok
            cases hanswer.symm.trans hok
          · rintro - ⟨response, hok, -⟩
            cases hanswer.symm.trans hok
      | ok response =>
          refine counted_singleton.trans ?_
          rw [length_recordCost]
          constructor
          · rintro h _ _ ⟨⟩ hok husage
            cases hanswer.symm.trans hok
            exact h ⟨response, hanswer, husage⟩
          · rintro h ⟨_, hok, husage⟩
            cases hanswer.symm.trans hok
            exact h options response rfl hanswer husage

/-- Only a stream that is read to its end and ends well is counted. -/
theorem counted_runStream_iff {providerId : Nat} {provider : ModelProvider V} {extra : Dict String V}
    {model : String} {messages : List V} {kwargs : Kwargs V} :
    Counted env demand (runStream env providerId provider extra model messages kwargs demand).effects ↔
      StreamCounts env providerId provider extra model messages kwargs demand := by
  unfold runStream StreamCounts
  cases hoptions : mergeOptions chatParameters extra kwargs.rest with
  | none => exact ⟨fun _ _ h => (nomatch h), fun _ => counted_nil⟩
  | some options =>
      simp only [Option.some.injEq, forall_eq']
      generalize hstream : env.chatStream (provider.request (.chatStream messages) model options) = stream
      have husage : returnedUsage env demand (provider.request (.chatStream messages) model options) ↔
          ∃ chunk ∈ taken demand stream.chunks, (truthy chunk.usage).isSome := by
        rw [← hstream]
        exact Iff.rfl
      cases hend : reachesEnd demand stream.chunks with
      | false =>
          refine counted_singleton.trans ?_
          rw [husage]
          simp
      | true =>
          cases herror : stream.error with
          | some e =>
              refine counted_singleton.trans ?_
              rw [husage]
              simp
          | none =>
              refine counted_singleton.trans ?_
              rw [husage]
              simp [length_recordCost]

omit [NatCast V] in
theorem counted_runEmbed_iff {provider : ModelProvider V} {model : String} {texts : List String} :
    Counted env none (runEmbed env provider model texts rows).effects ↔
      EmbedCounts env provider model texts rows := by
  unfold runEmbed EmbedCounts
  cases hoptions : mergeOptions embedParameters provider.extraConfig .empty with
  | none => exact ⟨fun _ _ _ h => (nomatch h), fun _ => counted_nil⟩
  | some options =>
      dsimp only
      cases hanswer : env.embed (provider.request (.embed texts) model options) with
      | error e =>
          refine counted_singleton.trans ?_
          constructor
          · rintro - _ _ ⟨⟩ hok
            cases hanswer.symm.trans hok
          · rintro - ⟨response, hok, -⟩
            cases hanswer.symm.trans hok
      | ok response =>
          refine counted_singleton.trans ?_
          constructor
          · rintro h _ _ ⟨⟩ hok husage
            cases hanswer.symm.trans hok
            exact h ⟨response, hanswer, husage⟩
          · rintro h ⟨_, hok, husage⟩
            cases hanswer.symm.trans hok
            exact h options response rfl hanswer husage

end Counted

/-! ## Calls -/

/-- A stream makes one call, unless an argument is given twice. -/
theorem requests_runStream {env : Env V} {providerId : Nat} {provider : ModelProvider V}
    {extra : Dict String V} {model : String} {messages : List V} {kwargs : Kwargs V} {demand : Option Nat} :
    (runStream env providerId provider extra model messages kwargs demand).requests =
      ((mergeOptions chatParameters extra kwargs.rest).map
        (provider.request (.chatStream messages) model)).toList := by
  unfold runStream
  cases mergeOptions chatParameters extra kwargs.rest with
  | none => rfl
  | some options =>
      dsimp only
      split
      · rfl
      · split
        · rfl
        · rfl

theorem requests_runStream_eq_iff {env : Env V} {providerId : Nat} {provider : ModelProvider V}
    {model : String} {messages : List V} {kwargs : Kwargs V} {demand : Option Nat} :
    (runStream env providerId provider .empty model messages kwargs demand).requests =
        (runStream env providerId provider provider.extraConfig model messages kwargs demand).requests ↔
      provider.extraConfig.entries = [] ∨ mergeOptions chatParameters .empty kwargs.rest = none := by
  rw [requests_runStream, requests_runStream]
  cases hbare : mergeOptions chatParameters .empty kwargs.rest with
  | none =>
      rw [mergeOptions_eq_none hbare]
      simp
  | some bare =>
      obtain ⟨-, hbareEq⟩ := mergeOptions_eq_some.1 hbare
      constructor
      · intro h
        left
        cases hfull : mergeOptions chatParameters provider.extraConfig kwargs.rest with
        | none =>
            rw [hfull] at h
            cases h
        | some full =>
            obtain ⟨-, hfullEq⟩ := mergeOptions_eq_some.1 hfull
            rw [hfull] at h
            have hsame : bare = full := congrArg Request.options (List.head_eq_of_cons_eq h)
            rw [hbareEq, hfullEq] at hsame
            exact (List.append_cancel_right hsame).symm
      · rintro (hempty | hnone)
        · have hfull : mergeOptions chatParameters provider.extraConfig kwargs.rest = some bare := by
            rw [← hbare]
            unfold mergeOptions
            rw [hempty]
            rfl
          rw [hfull]
        · cases hnone

omit [NatCast V] in
theorem requests_runEmbed {env : Env V} {provider : ModelProvider V} {model : String} {texts : List String}
    {rows : List (CostRecord V)} : (runEmbed env provider model texts rows).requests =
      ((mergeOptions embedParameters provider.extraConfig .empty).map
        (provider.request (.embed texts) model)).toList := by
  unfold runEmbed
  cases mergeOptions embedParameters provider.extraConfig .empty with
  | none => rfl
  | some options =>
      dsimp only
      split
      · rfl
      · rfl

section Entries

variable {env : Env V} {providerId registryId : Nat} {modelName : String} {messages : List V}
  {kwargs : Kwargs V} {demand : Option Nat} {texts : List String} {r : Nat × ModelProvider V × String}

/-- With what the entry resolves to, the two chats are one. -/
theorem chatByRegistry_eq (h : resolveModel env registryId = .ok r) :
    chatByRegistry env registryId messages kwargs = chat env r.1 r.2.2 messages kwargs := by
  unfold chatByRegistry chat
  rw [h, resolveModel_provider h]

theorem counted_chat_iff : Counted env none (chat env providerId modelName messages kwargs).effects ↔
    ∀ provider, env.providers providerId = some provider →
      ChatCounts env providerId provider modelName messages kwargs := by
  unfold chat
  cases hprovider : env.providers providerId with
  | none => exact ⟨fun _ _ h => (nomatch h), fun _ => counted_nil⟩
  | some provider =>
      refine counted_runChat_iff.trans ?_
      simp

theorem counted_chatByRegistry_iff :
    Counted env none (chatByRegistry env registryId messages kwargs).effects ↔
    ∀ r, resolveModel env registryId = .ok r → ChatCounts env r.1 r.2.1 r.2.2 messages kwargs := by
  unfold chatByRegistry
  cases hresolve : resolveModel env registryId with
  | error e => exact ⟨fun _ _ h => (nomatch h), fun _ => counted_nil⟩
  | ok r =>
      refine counted_runChat_iff.trans ?_
      simp

theorem counted_chatStream_iff :
    Counted env demand (chatStream env providerId modelName messages kwargs demand).effects ↔
      (demand ≠ some 0 → ∀ provider, env.providers providerId = some provider →
        StreamCounts env providerId provider provider.extraConfig modelName messages kwargs demand) := by
  unfold chatStream
  split
  · next hzero => exact ⟨fun _ h => absurd hzero h, fun _ => counted_nil⟩
  · next hzero =>
      rw [forall_prop_of_true hzero]
      cases hprovider : env.providers providerId with
      | none => exact ⟨fun _ _ h => (nomatch h), fun _ => counted_nil⟩
      | some provider =>
          refine counted_runStream_iff.trans ?_
          simp

theorem counted_embed_iff : Counted env none (embed env providerId modelName texts).effects ↔
    ∀ provider, env.providers providerId = some provider → cachedVector env modelName texts = none →
      EmbedCounts env provider modelName texts
        (recordCost env (embedRow env providerId modelName texts)) := by
  unfold embed
  cases hprovider : env.providers providerId with
  | none => exact ⟨fun _ _ h => (nomatch h), fun _ => counted_nil⟩
  | some provider =>
      dsimp only
      cases hcached : cachedVector env modelName texts with
      | some vector => exact ⟨fun _ _ _ h => (nomatch h), fun _ => counted_nil⟩
      | none =>
          refine counted_runEmbed_iff.trans ?_
          simp

theorem parity_of_plain_eq_none {call : EntryCall V} (h : call.plain env = none) : Parity env call := by
  intro plain hplain
  cases h.symm.trans hplain

omit [NatCast V] in
theorem plain_eq_some {f : Nat × ModelProvider V × String → EntryCall V} {plain : EntryCall V} :
    (resolveModel env registryId).toOption.map f = some plain ↔
      ∃ r, resolveModel env registryId = .ok r ∧ f r = plain := by
  cases resolveModel env registryId with
  | error e => simp [Except.toOption]
  | ok r => simp [Except.toOption]

theorem parity_chatByRegistry : Parity env (.chatByRegistry registryId messages kwargs) := by
  intro plain hplain
  obtain ⟨r, hr, rfl⟩ := plain_eq_some.1 hplain
  exact congrArg Outcome.requests (chatByRegistry_eq hr)

theorem parity_chatByAgent (agent : Agent) : Parity env (.chatByAgent agent messages kwargs) := by
  intro plain hplain
  obtain ⟨registryId, hid, hplain⟩ := Option.bind_eq_some_iff.1 hplain
  obtain ⟨r, hr, rfl⟩ := plain_eq_some.1 hplain
  show (chatByAgent env agent messages kwargs).requests = _
  unfold chatByAgent
  rw [hid]
  exact congrArg Outcome.requests (chatByRegistry_eq hr)

theorem counted_chatByAgent_iff (agent : Agent) :
    Counted env none (chatByAgent env agent messages kwargs).effects ↔
      Fits env (.chatByAgent agent messages kwargs) := by
  unfold chatByAgent Fits
  dsimp only
  cases agent.modelId with
  | some registryId => exact counted_chatByRegistry_iff
  | none =>
      dsimp only
      cases agent.modelProviderId with
      | none => exact ⟨fun _ _ _ _ h => (nomatch h), fun _ => counted_nil⟩
      | some providerId =>
          cases agent.modelName.filter (· ≠ "") with
          | none => exact ⟨fun _ _ _ _ _ h => (nomatch h), fun _ => counted_nil⟩
          | some modelName =>
              refine counted_chat_iff.trans ?_
              constructor
              · rintro h _ _ provider ⟨⟩ ⟨⟩ hprovider
                exact h provider hprovider
              · intro h provider hprovider
                exact h providerId modelName provider rfl rfl hprovider

theorem parity_chatStreamByRegistry_iff :
    Parity env (.chatStreamByRegistry registryId messages kwargs demand) ↔
    (demand ≠ some 0 → ∀ r, resolveModel env registryId = .ok r →
      r.2.1.extraConfig.entries = [] ∨ mergeOptions chatParameters .empty kwargs.rest = none) := by
  have hsame : ∀ r, resolveModel env registryId = .ok r →
      ((chatStreamByRegistry env registryId messages kwargs demand).requests =
        (chatStream env r.1 r.2.2 messages kwargs demand).requests ↔ (demand ≠ some 0 →
          r.2.1.extraConfig.entries = [] ∨ mergeOptions chatParameters .empty kwargs.rest = none)) := by
    intro r hr
    unfold chatStreamByRegistry chatStream
    by_cases hzero : demand = some 0
    · simp [hzero]
    · rw [if_neg hzero, if_neg hzero, hr, resolveModel_provider hr, forall_prop_of_true hzero]
      exact requests_runStream_eq_iff
  constructor
  · intro h hstarted r hr
    exact (hsame r hr).1 (h _ (plain_eq_some.2 ⟨r, hr, rfl⟩)) hstarted
  · intro h plain hplain
    obtain ⟨r, hr, rfl⟩ := plain_eq_some.1 hplain
    exact (hsame r hr).2 fun hstarted => h hstarted r hr

theorem counted_chatStreamByRegistry_iff :
    Counted env demand (chatStreamByRegistry env registryId messages kwargs demand).effects ↔
      (demand ≠ some 0 → ∀ r, resolveModel env registryId = .ok r →
        StreamCounts env r.1 r.2.1 .empty r.2.2 messages kwargs demand) := by
  unfold chatStreamByRegistry
  split
  · next hzero => exact ⟨fun _ h => absurd hzero h, fun _ => counted_nil⟩
  · next hzero =>
      rw [forall_prop_of_true hzero]
      cases hresolve : resolveModel env registryId with
      | error e => exact ⟨fun _ _ h => (nomatch h), fun _ => counted_nil⟩
      | ok r =>
          refine counted_runStream_iff.trans ?_
          simp

theorem parity_embedByRegistry_iff : Parity env (.embedByRegistry registryId texts) ↔
    ∀ r, resolveModel env registryId = .ok r → mergeOptions embedParameters r.2.1.extraConfig .empty ≠ none →
      cachedVector env r.2.2 texts = none := by
  have hsame : ∀ r, resolveModel env registryId = .ok r →
      ((embedByRegistry env registryId texts).requests = (embed env r.1 r.2.2 texts).requests ↔
        (mergeOptions embedParameters r.2.1.extraConfig .empty ≠ none →
          cachedVector env r.2.2 texts = none)) := by
    intro r hr
    unfold embedByRegistry embed
    rw [hr, resolveModel_provider hr]
    dsimp only
    rw [requests_runEmbed]
    cases hcached : cachedVector env r.2.2 texts with
    | none =>
        dsimp only
        rw [requests_runEmbed]
        simp
    | some vector =>
        cases mergeOptions embedParameters r.2.1.extraConfig .empty with
        | none => simp
        | some options => simp
  constructor
  · intro h r hr
    exact (hsame r hr).1 (h _ (plain_eq_some.2 ⟨r, hr, rfl⟩))
  · intro h plain hplain
    obtain ⟨r, hr, rfl⟩ := plain_eq_some.1 hplain
    exact (hsame r hr).2 (h r hr)

omit [NatCast V] in
theorem counted_embedByRegistry_iff : Counted env none (embedByRegistry env registryId texts).effects ↔
    ∀ r, resolveModel env registryId = .ok r → EmbedCounts env r.2.1 r.2.2 texts [] := by
  unfold embedByRegistry
  cases hresolve : resolveModel env registryId with
  | error e => exact ⟨fun _ _ h => (nomatch h), fun _ => counted_nil⟩
  | ok r =>
      refine counted_runEmbed_iff.trans ?_
      simp

end Entries

/-- A call makes the calls of its plain twin and leaves its cost row, exactly when it fits. -/
theorem parity_and_costOnce_iff (env : Env V) (call : EntryCall V) :
    Parity env call ∧ CostOnce env call ↔ Fits env call := by
  cases call with
  | chat providerId modelName messages kwargs =>
      rw [and_iff_right (parity_of_plain_eq_none rfl)]
      exact counted_chat_iff
  | chatByRegistry registryId messages kwargs =>
      rw [and_iff_right parity_chatByRegistry]
      exact counted_chatByRegistry_iff
  | chatByAgent agent messages kwargs =>
      rw [and_iff_right (parity_chatByAgent agent)]
      exact counted_chatByAgent_iff agent
  | chatStream providerId modelName messages kwargs demand =>
      rw [and_iff_right (parity_of_plain_eq_none rfl)]
      exact counted_chatStream_iff
  | chatStreamByRegistry registryId messages kwargs demand =>
      have hcost : CostOnce env (.chatStreamByRegistry registryId messages kwargs demand) ↔ _ :=
        counted_chatStreamByRegistry_iff
      rw [parity_chatStreamByRegistry_iff, hcost]
      unfold Fits
      constructor
      · intro h hstarted r hr
        exact ⟨h.1 hstarted r hr, h.2 hstarted r hr⟩
      · intro h
        exact ⟨fun hstarted r hr => (h hstarted r hr).1, fun hstarted r hr => (h hstarted r hr).2⟩
  | embed providerId modelName texts =>
      rw [and_iff_right (parity_of_plain_eq_none rfl)]
      exact counted_embed_iff
  | embedByRegistry registryId texts =>
      have hcost : CostOnce env (.embedByRegistry registryId texts) ↔ _ := counted_embedByRegistry_iff
      rw [parity_embedByRegistry_iff, hcost]
      unfold Fits
      constructor
      · intro h r hr hmerged
        exact ⟨h.1 r hr hmerged, h.2 r hr⟩
      · intro h
        constructor
        · intro r hr hmerged
          exact (h r hr hmerged).1
        · intro r hr options response hoptions
          have hmerged : mergeOptions embedParameters r.2.1.extraConfig .empty ≠ none := by
            rw [hoptions]
            exact Option.some_ne_none options
          exact (h r hr hmerged).2 options response hoptions

/-- A stream by registry of a provider with an extra option; and one whose consumer stops at the usage. -/
theorem extra_config_dropped_or_stream_not_counted :
    (¬ ∀ (env : Env Nat) (call : EntryCall Nat), Parity env call) ∧
      ¬ ∀ (env : Env Nat) (call : EntryCall Nat), CostOnce env call := by
  constructor
  · intro h
    have hsame := h
      { providers := fun _ => some
          { name := "p", type := "azure", baseUrl := none, apiKey := none
            extraConfig := Dict.empty.set "api_version" 1, isActive := true }
        registry := fun _ => some ⟨0, "m", true⟩
        chat := fun _ => .error "", chatStream := fun _ => ⟨[], none⟩, embed := fun _ => .error ""
        cached := fun _ _ => none, accepts := fun _ => true, completionCost := fun _ _ _ => none }
      (.chatStreamByRegistry 0 [] .empty none) _ rfl
    have hoptions := congrArg (List.map Request.options) hsame
    exact absurd hoptions (by decide)
  · intro h
    have hcount := h
      { providers := fun _ => some
          { name := "p", type := "openai", baseUrl := none, apiKey := none
            extraConfig := Dict.empty, isActive := true }
        registry := fun _ => none
        chat := fun _ => .error ""
        chatStream := fun _ => ⟨[⟨some (Dict.empty.set "prompt_tokens" 7), 0⟩], none⟩
        embed := fun _ => .error ""
        cached := fun _ _ => none, accepts := fun _ => true, completionCost := fun _ _ _ => none }
      (.chatStream 0 "m" [] .empty (some 1)) _ List.mem_cons_self ⟨_, List.mem_cons_self, rfl⟩
    cases hcount

end OpsKnowledge.Model
