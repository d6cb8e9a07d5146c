import ClosingLabels.Table
import ClosingLabels.Text

/-!
# Shipped languages

The languages that come with labels out of the box: the grammar file of each and
the kinds of syntax that count as blocks in it.
-/

namespace ClosingLabels

/-- What is known of a language: its grammar file and the kinds that count as blocks. -/
structure LanguageEntry where
  grammar : String
  kinds : List Text
deriving DecidableEq, Repr

/-- The languages known without any settings, by the editor's name for them. -/
def shippedLanguages : Table Text LanguageEntry := ⟨[
  ("python", {
    grammar := "tree-sitter-python.wasm"
    kinds := [
        "class_definition", "function_definition", "if_statement", "for_statement",
        "while_statement", "with_statement", "try_statement", "dictionary"] }),
  ("javascript", {
    grammar := "tree-sitter-javascript.wasm"
    kinds := [
        "class_declaration", "function_declaration", "method_definition", "arrow_function",
        "if_statement", "for_statement", "for_in_statement", "while_statement", "do_statement",
        "switch_statement", "try_statement", "object"] }),
  ("javascriptreact", {
    grammar := "tree-sitter-javascript.wasm"
    kinds := [
        "class_declaration", "function_declaration", "method_definition", "arrow_function",
        "if_statement", "for_statement", "for_in_statement", "while_statement",
        "switch_statement", "try_statement", "jsx_element"] }),
  ("typescript", {
    grammar := "tree-sitter-typescript.wasm"
    kinds := [
        "class_declaration", "interface_declaration", "enum_declaration", "function_declaration",
        "method_definition", "arrow_function", "if_statement", "for_statement",
        "for_in_statement", "while_statement", "do_statement", "switch_statement",
        "try_statement"] }),
  ("typescriptreact", {
    grammar := "tree-sitter-tsx.wasm"
    kinds := [
        "class_declaration", "interface_declaration", "function_declaration", "method_definition",
        "arrow_function", "if_statement", "for_statement", "for_in_statement", "while_statement",
        "switch_statement", "try_statement", "jsx_element"] }),
  ("rust", {
    grammar := "tree-sitter-rust.wasm"
    kinds := [
        "function_item", "impl_item", "trait_item", "struct_item", "enum_item", "mod_item",
        "if_expression", "for_expression", "while_expression", "loop_expression",
        "match_expression", "closure_expression"] }),
  ("go", {
    grammar := "tree-sitter-go.wasm"
    kinds := [
        "function_declaration", "method_declaration", "func_literal", "type_declaration",
        "if_statement", "for_statement", "expression_switch_statement", "type_switch_statement",
        "select_statement"] }),
  ("c", {
    grammar := "tree-sitter-c.wasm"
    kinds := [
        "function_definition", "struct_specifier", "if_statement", "for_statement",
        "while_statement", "do_statement", "switch_statement"] }),
  ("cpp", {
    grammar := "tree-sitter-cpp.wasm"
    kinds := [
        "namespace_definition", "class_specifier", "struct_specifier", "function_definition",
        "if_statement", "for_statement", "for_range_loop", "while_statement", "do_statement",
        "switch_statement"] }),
  ("java", {
    grammar := "tree-sitter-java.wasm"
    kinds := [
        "class_declaration", "interface_declaration", "enum_declaration", "method_declaration",
        "constructor_declaration", "if_statement", "for_statement", "enhanced_for_statement",
        "while_statement", "switch_expression", "try_statement"] }),
  ("csharp", {
    grammar := "tree-sitter-c_sharp.wasm"
    kinds := [
        "namespace_declaration", "class_declaration", "interface_declaration",
        "method_declaration", "constructor_declaration", "if_statement", "for_statement",
        "for_each_statement", "while_statement", "switch_statement", "try_statement"] }),
  ("ruby", {
    grammar := "tree-sitter-ruby.wasm"
    kinds := [
        "class", "module", "method", "singleton_method", "if", "unless", "while", "until", "for",
        "case", "do_block"] }),
  ("shellscript", {
    grammar := "tree-sitter-bash.wasm"
    kinds := [
        "function_definition", "if_statement", "for_statement", "while_statement",
        "case_statement"] }),
  ("json", {
    grammar := "tree-sitter-json.wasm"
    kinds := [
        "pair"] }),
  ("yaml", {
    grammar := "tree-sitter-yaml.wasm"
    kinds := [
        "block_mapping_pair", "block_sequence_item"] })
]⟩

/-- The kinds that count as blocks, for every shipped language. -/
def shippedTargets : Table Text (List Text) := shippedLanguages.map LanguageEntry.kinds

/-- The grammar file of a shipped language. -/
def shippedGrammar? (language : Text) : Option String :=
  (shippedLanguages.get? language).map LanguageEntry.grammar

end ClosingLabels
