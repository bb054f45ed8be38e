import SchemaDialects.Proofs.Markup.WordLaws

/-!
# Lists of quoted names

`splitUnquoted_quote`: names that are written one after the other, each in quotes where it needs them, are told apart by
any separator that cannot stand in a plain word, whatever the names hold. A space behind every separator is trimmed.
-/

namespace SchemaDialects.Markup

open Text

theorem trim_quote (name : String) : trim (quote name) = quote name := by
  rw [trim, (solid_quote name).strip, String.ofList_toList]

theorem trim_space (cs : List Char) : trim (String.ofList (' ' :: cs)) = trim (String.ofList cs) := by
  rw [trim, trim, String.toList_ofList, String.toList_ofList, stripWhile_cons (by decide)]

theorem toList_quotes (join : String) (names : List String) :
    (join.intercalate (names.map quote)).toList =
      join.toList.intercalate (names.map fun name => (quote name).toList) := by
  rw [String.toList_intercalate, List.map_map]
  rfl

/-- A list of quoted names is split into these names again, and each comes back without its quotes. A space behind the
separators makes no difference when the pieces are trimmed, unless spaces separate them. -/
theorem splitUnquoted_quote (names : List String) (sep : Char) (hne : names ≠ [])
    (hsep : sep ≠ '"') (hword : sep.isAlphanum = false) (hunderscore : sep ≠ '_') :
    splitUnquoted ((String.ofList [sep]).intercalate (names.map quote)) sep = names.map quote ∧
    (sep ≠ ' ' → (splitUnquoted ((String.ofList [sep, ' ']).intercalate (names.map quote)) sep).map trim =
      names.map quote) ∧
    (names.map quote).map (unquote ·.toList) = names := by
  have hplain : isPlainChar sep = false := by simp [isPlainChar, hword, hunderscore]
  have hpieces := unsplit_quotes hplain names
  refine ⟨?_, fun hspace => ?_, ?_⟩
  · rw [splitUnquoted, toList_quotes, String.toList_ofList,
      splitUnquotedChars_intercalate (by simpa using hne) hsep hpieces, List.map_map]
    exact List.map_congr_left fun _ _ => String.ofList_toList
  · obtain ⟨name, more, rfl⟩ := List.exists_cons_of_ne_nil hne
    rw [splitUnquoted, toList_quotes, String.toList_ofList, List.map_cons,
      splitUnquotedChars_intercalate_space hsep hspace hpieces, List.map_cons, List.map_cons, String.ofList_toList,
      trim_quote, List.map_map, List.map_map, List.map_map]
    refine congrArg (quote name :: ·) (List.map_congr_left fun other _ => ?_)
    show trim (String.ofList (' ' :: (quote other).toList)) = quote other
    rw [trim_space, String.ofList_toList, trim_quote]
  · rw [List.map_map]
    exact (List.map_congr_left fun name _ => unquote_quote name).trans (List.map_id names)

theorem splitUnquoted_quote_sample :
    let names := ["id", "", "say \"a, b\"", "two\nlines"]
    splitUnquoted (",".intercalate (names.map quote)) ',' = names.map quote ∧
    (splitUnquoted (", ".intercalate (names.map quote)) ',').map trim = names.map quote ∧
    (names.map quote).map (unquote ·.toList) = names :=
  have h := splitUnquoted_quote ["id", "", "say \"a, b\"", "two\nlines"] ',' (by decide) (by decide) (by decide)
    (by decide)
  ⟨h.1, h.2.1 (by decide), h.2.2⟩

end SchemaDialects.Markup
