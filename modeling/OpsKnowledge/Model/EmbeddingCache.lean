import OpsKnowledge.Lib.KeyValue
import OpsKnowledge.Model.Service

/-!
# The embedding cache

`ModelService.embed` asks the L3 cache for a single text, under a hash of the model's name and the
text, and fills it with the first vector of the provider's answer. Calls follow one another, each
with the providers and adapters of its moment; errors of the cache are swallowed.
-/

namespace OpsKnowledge.Model

open OpsKnowledge.Lib

/-- A call of `embed`; the cache of its environment is the one of the run. -/
structure EmbedCall (V : Type) where
  env : Env V
  providerId : Nat
  modelName : String
  texts : List String
  /-- reading the cache raises, or closing it after a hit -/
  readFails : Bool := false
  writeFails : Bool := false
  now : Nat
  storedAt : Nat

inductive CacheEvent (V : Type) where
  | call (c : EmbedCall V)
  /-- Redis drops a key before its time. -/
  | evict (key : String)

/-- `L3_TTL` -/
def embeddingTtl : Nat := 3600

section Cache

variable {V : Type} [NatCast V] (digest : String → String) (nonEmpty : V → Bool)

/-- `L3_PREFIX + _hash_key(model_name, text)`; `digest` are 16 digits of SHA-256. -/
def embeddingKey (modelName text : String) : String := "l3:" ++ digest (modelName ++ ":" ++ text)

namespace EmbedCall

variable (c : EmbedCall V)

/-- `get_embedding`, where what it gives is not empty. -/
def found (cache : ExpiringStore String V) (modelName text : String) : Option V :=
  if c.readFails then none else (cache.get c.now (embeddingKey digest modelName text)).filter nonEmpty

def reply (cache : ExpiringStore String V) : Except Failure (List V) :=
  (embed { c.env with cached := c.found digest nonEmpty cache } c.providerId c.modelName c.texts).reply

/-- The call without the cache. -/
def uncached : Except Failure (List V) :=
  (embed { c.env with cached := fun _ _ => none } c.providerId c.modelName c.texts).reply

/-- The vector that answers the call from the cache. -/
def hit (cache : ExpiringStore String V) : Option V :=
  (c.env.providers c.providerId).bind fun _ =>
    cachedVector { c.env with cached := c.found digest nonEmpty cache } c.modelName c.texts

/-- `set_embedding(vectors[0], ..)` after a call of the provider. -/
def next (cache : ExpiringStore String V) : ExpiringStore String V :=
  match c.texts, c.hit digest nonEmpty cache, c.reply digest nonEmpty cache with
  | [text], none, .ok (vector :: _) =>
      if c.writeFails then cache
      else cache.setEx c.storedAt embeddingTtl (embeddingKey digest c.modelName text) vector
  | _, _, _ => cache

end EmbedCall

def CacheEvent.next (cache : ExpiringStore String V) : CacheEvent V → ExpiringStore String V
  | .call c => c.next digest nonEmpty cache
  | .evict key => cache.delete key

/-- The cache after some events. -/
def cacheAfter (events : List (CacheEvent V)) : ExpiringStore String V :=
  events.foldl (CacheEvent.next digest nonEmpty) Store.empty

/-- A call that is answered from the cache is answered as without it. -/
def Transparent (events : List (CacheEvent V)) : Prop :=
  ∀ before c after, events = before ++ .call c :: after →
    (c.hit digest nonEmpty (cacheAfter digest nonEmpty before)).isSome →
      c.reply digest nonEmpty (cacheAfter digest nonEmpty before) = c.uncached

/-! ## The calls that fill the cache -/

namespace EmbedCall

variable (c : EmbedCall V)

/-- The first vector of the provider's answer. -/
def firstVector : Option V :=
  match c.uncached with
  | .ok (vector :: _) => some vector
  | _ => none

/-- The call whose vector is found under the key of a text. -/
def filler (fills : ExpiringStore String (EmbedCall V)) (text : String) : Option (EmbedCall V) :=
  if c.readFails then none
  else (fills.get c.now (embeddingKey digest c.modelName text)).filter fun w => w.firstVector.any nonEmpty

/-- A call of a single text that finds no vector fills the cache when its provider answers. -/
def fill (fills : ExpiringStore String (EmbedCall V)) : ExpiringStore String (EmbedCall V) :=
  match c.texts with
  | [text] =>
      if (c.filler digest nonEmpty fills text).isNone ∧ c.firstVector.isSome ∧ c.writeFails = false then
        fills.setEx c.storedAt embeddingTtl (embeddingKey digest c.modelName text) c
      else fills
  | _ => fills

end EmbedCall

def CacheEvent.fill (fills : ExpiringStore String (EmbedCall V)) :
    CacheEvent V → ExpiringStore String (EmbedCall V)
  | .call c => c.fill digest nonEmpty fills
  | .evict key => fills.delete key

/-- For each key, the call that has filled it. -/
def fillsAfter (events : List (CacheEvent V)) : ExpiringStore String (EmbedCall V) :=
  events.foldl (CacheEvent.fill digest nonEmpty) Store.empty

/-- Where a call finds its key filled, its provider gives the one vector that the filling call got. -/
def Consistent (events : List (CacheEvent V)) : Prop :=
  ∀ before c after text w vector, events = before ++ .call c :: after → c.texts = [text] →
    (c.env.providers c.providerId).isSome →
      c.filler digest nonEmpty (fillsAfter digest nonEmpty before) text = some w →
        w.firstVector = some vector → c.uncached = .ok [vector]

/-- A cache holds the first vectors of the calls that filled it. -/
structure FilledBy (cache : ExpiringStore String V) (fills : ExpiringStore String (EmbedCall V)) : Prop where
  eq : ∀ key, cache key = (fills key).bind fun e => e.1.firstVector.map fun vector => (vector, e.2)
  answered : ∀ key e, fills key = some e → e.1.firstVector.isSome

namespace EmbedCall

variable {digest nonEmpty} {c : EmbedCall V} {cache : ExpiringStore String V}
  {fills : ExpiringStore String (EmbedCall V)} {text : String}

theorem embed_eq_of_cachedVector (env : Env V) {f f' : String → String → Option V} {providerId : Nat}
    {modelName : String} {texts : List String}
    (h : cachedVector { env with cached := f } modelName texts =
      cachedVector { env with cached := f' } modelName texts) :
    embed { env with cached := f } providerId modelName texts =
      embed { env with cached := f' } providerId modelName texts := by
  unfold embed
  rw [h]
  rfl

theorem reply_of_hit {vector : V} (h : c.hit digest nonEmpty cache = some vector) :
    c.reply digest nonEmpty cache = .ok [vector] := by
  obtain ⟨provider, hprovider, hvector⟩ := Option.bind_eq_some_iff.1 h
  unfold reply embed
  dsimp only
  rw [hprovider, hvector]

theorem reply_of_miss (h : c.hit digest nonEmpty cache = none) :
    c.reply digest nonEmpty cache = c.uncached := by
  unfold reply uncached
  cases hprovider : c.env.providers c.providerId with
  | none =>
      unfold embed
      dsimp only
      rw [hprovider]
  | some provider =>
      have hnone : cachedVector { c.env with cached := c.found digest nonEmpty cache } c.modelName c.texts =
          none := by
        unfold hit at h
        rwa [hprovider] at h
      have hempty : cachedVector { c.env with cached := fun _ _ => none } c.modelName c.texts = none := by
        unfold cachedVector
        split
        · rfl
        · rfl
      rw [embed_eq_of_cachedVector c.env (hnone.trans hempty.symm)]

omit [NatCast V] in
theorem hit_eq_found (htexts : c.texts = [text]) (hprovider : (c.env.providers c.providerId).isSome) :
    c.hit digest nonEmpty cache = c.found digest nonEmpty cache c.modelName text := by
  obtain ⟨provider, hprovider⟩ := Option.isSome_iff_exists.1 hprovider
  unfold hit
  rw [hprovider, htexts]
  rfl

omit [NatCast V] in
/-- Only a call of a single text, with a provider, is answered from the cache. -/
theorem exists_of_hit {vector : V} (h : c.hit digest nonEmpty cache = some vector) :
    ∃ text, c.texts = [text] ∧ (c.env.providers c.providerId).isSome ∧
      c.found digest nonEmpty cache c.modelName text = some vector := by
  obtain ⟨provider, hprovider, hvector⟩ := Option.bind_eq_some_iff.1 h
  unfold cachedVector at hvector
  split at hvector
  · next text htexts => exact ⟨text, htexts, by rw [hprovider]; rfl, hvector⟩
  · cases hvector

theorem get_eq (h : FilledBy cache fills) (now : Nat) (key : String) :
    cache.get now key = (fills.get now key).bind firstVector := by
  unfold ExpiringStore.get
  rw [h.eq]
  cases hfill : fills key with
  | none => rfl
  | some e =>
      obtain ⟨vector, hvector⟩ := Option.isSome_iff_exists.1 (h.answered key e hfill)
      by_cases hlive : now < e.2
      · simp [hvector, hlive]
      · simp [hvector, hlive]

theorem found_eq (h : FilledBy cache fills) :
    c.found digest nonEmpty cache c.modelName text =
      (c.filler digest nonEmpty fills text).bind firstVector := by
  unfold found filler
  by_cases hread : c.readFails = true
  · rw [if_pos hread, if_pos hread]
    rfl
  · rw [if_neg hread, if_neg hread, get_eq h]
    cases fills.get c.now (embeddingKey digest c.modelName text) with
    | none => rfl
    | some w =>
        cases hw : w.firstVector with
        | none => simp [Option.filter, hw]
        | some vector =>
            cases hne : nonEmpty vector <;> simp [Option.filter, hw, hne]

theorem filler_firstVector {w : EmbedCall V} (h : c.filler digest nonEmpty fills text = some w) :
    ∃ vector, w.firstVector = some vector := by
  unfold filler at h
  split at h
  · cases h
  · obtain ⟨-, hany⟩ := Option.filter_eq_some_iff.1 h
    cases hw : w.firstVector with
    | none =>
        rw [hw] at hany
        cases hany
    | some vector => exact ⟨vector, rfl⟩

theorem provider_of_firstVector (h : c.firstVector.isSome) : (c.env.providers c.providerId).isSome := by
  cases hprovider : c.env.providers c.providerId with
  | some provider => rfl
  | none =>
      unfold firstVector uncached embed at h
      dsimp only at h
      rw [hprovider] at h
      cases h

theorem firstVector_eq_some {vector : V} :
    c.firstVector = some vector ↔ ∃ rest, c.uncached = .ok (vector :: rest) := by
  unfold firstVector
  split
  · next vector' rest heq => simp [heq]
  · next hno =>
      refine iff_of_false nofun ?_
      rintro ⟨rest, heq⟩
      exact hno vector rest heq

theorem filler_eq_none (h : FilledBy cache fills)
    (hfound : c.found digest nonEmpty cache c.modelName text = none) :
    c.filler digest nonEmpty fills text = none := by
  rw [found_eq h] at hfound
  cases hfiller : c.filler digest nonEmpty fills text with
  | none => rfl
  | some w =>
      obtain ⟨vector, hvector⟩ := filler_firstVector hfiller
      rw [hfiller, Option.bind_some, hvector] at hfound
      cases hfound

/-- A change of one key. -/
theorem filledBy_of_key (h : FilledBy cache fills) {cache' : ExpiringStore String V}
    {fills' : ExpiringStore String (EmbedCall V)} {key : String}
    (hcache : ∀ k, k ≠ key → cache' k = cache k) (hfills : ∀ k, k ≠ key → fills' k = fills k)
    (hkey : cache' key = (fills' key).bind fun e => e.1.firstVector.map fun vector => (vector, e.2))
    (hanswered : ∀ e, fills' key = some e → e.1.firstVector.isSome) : FilledBy cache' fills' := by
  constructor
  · intro k
    by_cases hk : k = key
    · rw [hk]
      exact hkey
    · rw [hcache k hk, hfills k hk]
      exact h.eq k
  · intro k e he
    by_cases hk : k = key
    · rw [hk] at he
      exact hanswered e he
    · rw [hfills k hk] at he
      exact h.answered k e he

theorem filledBy_setEx (h : FilledBy cache fills) {vector : V} (hvector : c.firstVector = some vector)
    (now ttl : Nat) (key : String) :
    FilledBy (cache.setEx now ttl key vector) (fills.setEx now ttl key c) := by
  refine filledBy_of_key h (fun k hk => ExpiringStore.setEx_of_ne hk)
    (fun k hk => ExpiringStore.setEx_of_ne hk) ?_ ?_
  · rw [ExpiringStore.setEx_self, ExpiringStore.setEx_self]
    simp [hvector]
  · intro e he
    rw [ExpiringStore.setEx_self] at he
    cases he
    rw [hvector]
    rfl

/-- A call keeps the cache and the calls that filled it together. -/
theorem filledBy_next (h : FilledBy cache fills) :
    FilledBy (c.next digest nonEmpty cache) (c.fill digest nonEmpty fills) := by
  unfold next
  split
  · next text vector rest htexts hmiss hreply =>
      have huncached : c.uncached = .ok (vector :: rest) := (reply_of_miss hmiss).symm.trans hreply
      have hfirst : c.firstVector = some vector := firstVector_eq_some.2 ⟨rest, huncached⟩
      rw [hit_eq_found htexts (provider_of_firstVector (by rw [hfirst]; rfl))] at hmiss
      unfold fill
      rw [htexts]
      dsimp only
      rw [filler_eq_none h hmiss, hfirst]
      cases hwrite : c.writeFails with
      | true => simpa using h
      | false => simpa using filledBy_setEx h hfirst _ _ _
  · next hno =>
      have hsame : c.fill digest nonEmpty fills = fills := by
        unfold fill
        split
        · next text htexts =>
            refine if_neg ?_
            rintro ⟨hfiller, hfirst, -⟩
            -- the provider answers a call that finds nothing
            have hmiss : c.hit digest nonEmpty cache = none := by
              rw [hit_eq_found htexts (provider_of_firstVector hfirst), found_eq h,
                Option.isNone_iff_eq_none.1 hfiller]
              rfl
            obtain ⟨vector, hvector⟩ := Option.isSome_iff_exists.1 hfirst
            obtain ⟨rest, huncached⟩ := firstVector_eq_some.1 hvector
            exact hno text vector rest htexts hmiss ((reply_of_miss hmiss).trans huncached)
        · rfl
      rw [hsame]
      exact h

end EmbedCall

variable {digest nonEmpty}

theorem filledBy_delete {cache : ExpiringStore String V} {fills : ExpiringStore String (EmbedCall V)}
    (h : FilledBy cache fills) (key : String) : FilledBy (cache.delete key) (fills.delete key) := by
  refine EmbedCall.filledBy_of_key h (fun k hk => ExpiringStore.delete_of_ne hk)
    (fun k hk => ExpiringStore.delete_of_ne hk) ?_ ?_
  · rw [ExpiringStore.delete_self, ExpiringStore.delete_self]
    rfl
  · intro e he
    rw [ExpiringStore.delete_self] at he
    cases he

theorem filledBy_after (events : List (CacheEvent V)) :
    FilledBy (cacheAfter digest nonEmpty events) (fillsAfter digest nonEmpty events) := by
  induction events using List.reverseRecOn with
  | nil => exact ⟨fun _ => rfl, nofun⟩
  | append_singleton events e ih =>
      unfold cacheAfter fillsAfter
      rw [List.foldl_append, List.foldl_append]
      cases e with
      | call c => exact EmbedCall.filledBy_next ih
      | evict key => exact filledBy_delete ih key

/-- The cache does not show exactly when a call that finds its key filled asks a provider that gives what the
filling call got. -/
theorem transparent_iff (digest : String → String) (nonEmpty : V → Bool) (events : List (CacheEvent V)) :
    Transparent digest nonEmpty events ↔ Consistent digest nonEmpty events := by
  constructor
  · intro h before c after text w vector hevents htexts hprovider hfiller hvector
    have hfilled : FilledBy (cacheAfter digest nonEmpty before) (fillsAfter digest nonEmpty before) :=
      filledBy_after before
    have hhit : c.hit digest nonEmpty (cacheAfter digest nonEmpty before) = some vector := by
      rw [EmbedCall.hit_eq_found htexts hprovider, EmbedCall.found_eq hfilled, hfiller]
      exact hvector
    rw [← h before c after hevents (by rw [hhit]; rfl), EmbedCall.reply_of_hit hhit]
  · intro h before c after hevents hhit
    obtain ⟨vector, hhit⟩ := Option.isSome_iff_exists.1 hhit
    obtain ⟨text, htexts, hprovider, hfound⟩ := EmbedCall.exists_of_hit hhit
    rw [EmbedCall.found_eq (filledBy_after before)] at hfound
    obtain ⟨w, hfiller, hvector⟩ := Option.bind_eq_some_iff.1 hfound
    rw [EmbedCall.reply_of_hit hhit,
      h before c after text w vector hevents htexts hprovider hfiller hvector]

end Cache

/-! ## Two providers with a model of one name -/

def embedderAt (url : String) : ModelProvider Nat where
  name := url
  type := "openai"
  baseUrl := some url
  apiKey := none
  extraConfig := .empty
  isActive := true

/-- The second provider gives another vector than the first. -/
def twoEmbedders : Env Nat where
  providers id := if id = 1 then some (embedderAt "a") else if id = 2 then some (embedderAt "b") else none
  registry _ := none
  chat _ := .error ""
  chatStream _ := ⟨[], none⟩
  embed r := .ok ⟨none, [if r.baseUrl = some "a" then 1 else 2]⟩
  cached _ _ := none
  accepts _ := true
  completionCost _ _ _ := none

def embedWith (providerId : Nat) : EmbedCall Nat :=
  { env := twoEmbedders, providerId := providerId, modelName := "bge-m3", texts := ["query"], now := 0
    storedAt := 0 }

/-- Whatever the digest, the call of the second provider gets the vector of the first. -/
theorem twoEmbedders_not_transparent : ¬ ∃ digest : String → String, ∀ events : List (CacheEvent Nat),
    Transparent digest (fun _ => true) events := by
  rintro ⟨digest, h⟩
  have hcache : cacheAfter digest (fun _ => true) [.call (embedWith 1)] =
      ExpiringStore.setEx Store.empty 0 embeddingTtl (embeddingKey digest "bge-m3" "query") 1 := rfl
  have hget : (cacheAfter digest (fun _ => true) [.call (embedWith 1)]).get 0
      (embeddingKey digest "bge-m3" "query") = some 1 := by
    rw [hcache]
    exact ExpiringStore.get_setEx_self (by decide)
  have hhit : (embedWith 2).hit digest (fun _ => true)
      (cacheAfter digest (fun _ => true) [.call (embedWith 1)]) = some 1 :=
    congrArg (Option.filter fun _ => true) hget
  have hreply := h [.call (embedWith 1), .call (embedWith 2)] [.call (embedWith 1)] (embedWith 2) [] rfl
    (by rw [hhit]; rfl)
  have huncached : (embedWith 2).uncached = .ok [2] := rfl
  rw [EmbedCall.reply_of_hit hhit, huncached] at hreply
  cases hreply

end OpsKnowledge.Model
