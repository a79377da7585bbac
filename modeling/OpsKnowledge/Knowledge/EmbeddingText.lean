import OpsKnowledge.Knowledge.Vectors
import OpsKnowledge.Replies.Parsing

/-!
# The text that is embedded

`_build_embedding_text` on any metadata, and the limits that the two embedding tasks give it:
`embed_unit_chunks` reads one from the configuration of the knowledge base, `reindex_kb` leaves
it to the default. How a float is written is a parameter.
-/

namespace OpsKnowledge.Knowledge

open OpsKnowledge.Lib
open OpsKnowledge.Replies

/-- What `_build_embedding_text` reads of a chunk's dictionary. -/
structure ChunkDict where
  content : String
  metadata : JsonValue

section Texts

variable (u : Unicode) (reprFloat : Double → String)

/-- `heading`, as the prefix has it. -/
def ChunkDict.heading (chunk : ChunkDict) : JsonValue :=
  match asDict (orElse chunk.metadata (.obj [])) with
  | some members => orElse (Replies.get members "heading") (.str "")
  | none => .str ""

def ChunkDict.start (chunk : ChunkDict) : String := chunk.heading.text u reprFloat ++ "\n\n"

/-- The heading says something that the content does not start a paragraph with. -/
def ChunkDict.Headed (chunk : ChunkDict) : Prop :=
  truthy chunk.heading = true ∧ ¬ (chunk.start u reprFloat).toList <:+: chunk.content.toList

instance ChunkDict.decidableHeaded (chunk : ChunkDict) : Decidable (chunk.Headed u reprFloat) :=
  inferInstanceAs (Decidable (_ ∧ _))

/-- `_build_embedding_text` -/
def embeddingText (threshold : Int) (chunk : ChunkDict) : String :=
  if truthy chunk.heading = true ∧ 0 < threshold ∧ (chunk.content.length : Int) < threshold ∧
      ¬ (chunk.start u reprFloat).toList <:+: chunk.content.toList then
    chunk.start u reprFloat ++ chunk.content
  else chunk.content

/-- `int(kb_chunking_cfg.get("context_prefix_max_chars", 100))` -/
def contextPrefixMaxChars (chunkingConfig : Option (List (String × JsonValue))) :
    Except PyError Int :=
  let config := chunkingConfig.getD []
  toInt u (if has config "context_prefix_max_chars" then Replies.get config "context_prefix_max_chars"
    else .int contextPrefixCharThreshold)

/-- What `embed_unit_chunks` embeds for a chunk; without a limit it embeds nothing. -/
def embedUnitText (chunkingConfig : Option (List (String × JsonValue))) (chunk : ChunkDict) :
    Except PyError String := do
  let threshold ← contextPrefixMaxChars u chunkingConfig
  return embeddingText u reprFloat threshold chunk

/-- What `reindex_kb` embeds for a chunk. -/
def reindexText (chunk : ChunkDict) : String :=
  embeddingText u reprFloat contextPrefixCharThreshold chunk

theorem embeddingText_eq_ite (threshold : Int) (chunk : ChunkDict) :
    embeddingText u reprFloat threshold chunk =
      if chunk.Headed u reprFloat ∧ (chunk.content.length : Int) < threshold then
        chunk.start u reprFloat ++ chunk.content
      else chunk.content := by
  unfold embeddingText
  refine if_congr ?_ rfl rfl
  unfold ChunkDict.Headed
  constructor
  · rintro ⟨htruthy, -, hshort, hnew⟩
    exact ⟨⟨htruthy, hnew⟩, hshort⟩
  · rintro ⟨⟨htruthy, hnew⟩, hshort⟩
    exact ⟨htruthy, by omega, hshort, hnew⟩

/-- The prefix makes the text longer. -/
theorem start_append_ne (chunk : ChunkDict) :
    chunk.start u reprFloat ++ chunk.content ≠ chunk.content := by
  intro h
  have hlength := congrArg String.length h
  simp [ChunkDict.start, String.length_append] at hlength

/-- Two limits give one text exactly if there is no prefix to add, or both add it or neither. -/
theorem embeddingText_eq_iff (threshold threshold' : Int) (chunk : ChunkDict) :
    embeddingText u reprFloat threshold chunk = embeddingText u reprFloat threshold' chunk ↔
      (chunk.Headed u reprFloat →
        ((chunk.content.length : Int) < threshold ↔ (chunk.content.length : Int) < threshold')) := by
  rw [embeddingText_eq_ite, embeddingText_eq_ite]
  have hne := start_append_ne u reprFloat chunk
  by_cases hheaded : chunk.Headed u reprFloat
  · by_cases hshort : (chunk.content.length : Int) < threshold
    · by_cases hshort' : (chunk.content.length : Int) < threshold'
      · simp [hheaded, hshort, hshort']
      · simpa [hheaded, hshort, hshort'] using hne
    · by_cases hshort' : (chunk.content.length : Int) < threshold'
      · simpa [hheaded, hshort, hshort'] using hne.symm
      · simp [hheaded, hshort, hshort']
  · simp [hheaded]

/-- For string headings, the text of a chunk's row. -/
theorem buildEmbeddingText_eq (threshold : Int) (c : Chunk) :
    buildEmbeddingText threshold c =
      embeddingText u reprFloat threshold
        { content := c.content, metadata := .obj [("heading", .str c.heading)] } := by
  have hheading : ChunkDict.heading
      { content := c.content, metadata := .obj [("heading", .str c.heading)] } = .str c.heading := by
    show orElse (.str c.heading) (.str "") = _
    by_cases hempty : c.heading = ""
    · rw [hempty]
      rfl
    · exact if_pos (decide_eq_true hempty)
  unfold buildEmbeddingText embeddingText ChunkDict.start
  rw [hheading]
  exact if_congr (and_congr_left' decide_eq_true_iff.symm) rfl rfl

/-- A chunk gets the same text from both tasks exactly if the configured limit does not decide otherwise
than 100 characters whether its heading goes before it. -/
theorem reindexText_eq_iff (chunkingConfig : Option (List (String × JsonValue))) (chunk : ChunkDict) :
    (∀ text, embedUnitText u reprFloat chunkingConfig chunk = .ok text →
      reindexText u reprFloat chunk = text) ↔
      ∀ threshold, contextPrefixMaxChars u chunkingConfig = .ok threshold → chunk.Headed u reprFloat →
        (chunk.content.length < 100 ↔ (chunk.content.length : Int) < threshold) := by
  unfold embedUnitText reindexText
  cases hlimit : contextPrefixMaxChars u chunkingConfig with
  | error e => exact ⟨fun _ => nofun, fun _ => nofun⟩
  | ok threshold =>
      have heq := embeddingText_eq_iff u reprFloat contextPrefixCharThreshold threshold chunk
      have hcast : (chunk.content.length : Int) < contextPrefixCharThreshold ↔
          chunk.content.length < 100 := by
        unfold contextPrefixCharThreshold
        omega
      rw [hcast] at heq
      constructor
      · intro h threshold' hthreshold'
        cases hthreshold'
        exact heq.1 (h _ rfl)
      · intro h text htext
        cases htext
        exact heq.2 (h threshold rfl)

end Texts

/-- A section with a heading, in a knowledge base without prefixes. -/
def shortSection : ChunkDict where
  content := "short"
  metadata := .obj [("heading", .str "Intro")]

/-- The configuration turns prefixes off; reindexing adds the heading. -/
theorem reindex_adds_prefix :
    ¬ ∀ (u : Unicode) (reprFloat : Double → String)
        (chunkingConfig : Option (List (String × JsonValue))) (chunk : ChunkDict) (text : String),
        embedUnitText u reprFloat chunkingConfig chunk = .ok text →
          reindexText u reprFloat chunk = text := by
  intro h
  have heq := h ⟨fun _ => none, fun _ => true⟩ (fun _ => "")
    (some [("context_prefix_max_chars", .int 0)]) shortSection "short" rfl
  exact absurd heq (by decide)

end OpsKnowledge.Knowledge
