/-!
The messages of the program, each by its key, in English and in Spanish.
-/

namespace JarAtlas.Messages

def keyed (stem : String) (texts : List (String × String × String)) :
    List (String × String × String) :=
  texts.map fun t => (stem ++ t.1, t.2)

/-- A message that has no Spanish text has an empty one here. -/
def texts : List (String × String × String) :=
  keyed "" [
    ("_name", "English", "Español")] ++
  keyed "cli.help." [
    ("title", "Orbis Prism - Tools for Hytale modding",
     "Orbis Prism - Herramientas para modding de Hytale"),
    ("usage", "Usage: python main.py <command>", "Uso: python main.py <comando>"),
    ("commands", "Commands:", "Comandos:"),
    ("init_desc", "Detects HytaleServer.jar and saves the configuration.",
     "Detecta HytaleServer.jar y guarda la configuración."),
    ("arguments_panel", "Arguments", "Argumentos"),
    ("commands_panel", "Commands", "Comandos"),
    ("options_panel", "Options", "Opciones"),
    ("version", "Show the version and exit.", "Muestra la versión y sale."),
    ("decompile_desc",
     "Decompiles the JAR and leaves only com.hypixel.hytale. Default: release; --all/-a: all.",
     "Descompila el JAR y deja solo com.hypixel.hytale. Por defecto: release; --all/-a: todas."),
    ("build_desc", "Decompile and index (overwrites code and DB). Default: release; --all/-a: all.",
     "Descompila e indexa (sobrescribe código y DB). Por defecto: release; --all/-a: todas."),
    ("index_desc",
     "Indexes the code into the SQLite database (FTS5). Default: release; --all/-a: all.",
     "Indexa el código en SQLite (FTS5). Por defecto: release; --all/-a: todas."),
    ("serve_desc", "Starts the MCP server for AI.", "Inicia el servidor MCP para IA."),
    ("mcp_desc", "Starts the MCP server for AI.", "Inicia el servidor MCP para IA."),
    ("example", "Example: python main.py ctx init", "Ejemplo: python main.py ctx init"),
    ("prune_desc",
     "Copy only com.hypixel.hytale from decompiled_raw to decompiled. Default: release; " ++
     "--all/-a: all.",
     "Copia solo com.hypixel.hytale de decompiled_raw a decompiled. Por defecto: release; " ++
     "--all/-a: todas."),
    ("query_desc", "Search the indexed DB (FTS5). Default: release.",
     "Busca en la DB indexada (FTS5). Por defecto: release."),
    ("context_assets_desc", "Indexes Hytale assets (models, textures, JSONs) from Assets.zip.",
     "Indexa los assets de Hytale (modelos, texturas, JSONs) desde Assets.zip."),
    ("lang_list_desc", "List available languages.", "Lista idiomas disponibles."),
    ("lang_set_desc", "Change the language (e.g. lang set en).",
     "Cambia el idioma (ej: lang set en)."),
    ("config_set_jar_desc", "Set the path: only the game root folder is needed.",
     "Establece la ruta: solo necesitas la carpeta raíz del juego."),
    ("config_set_jar_hint", "How to get it: Launcher -> Settings -> Open Directory -> Copy Path.",
     "Cómo obtenerla: Launcher -> Settings -> Open Directory -> Copy Path."),
    ("server_list_desc", "List indexed versions and the active one.",
     "Lista versiones indexadas y la activa."),
    ("server_use_desc", "Set the active version (release or prerelease).",
     "Establece la versión activa (release o prerelease)."),
    ("context_list_desc", "List indexed contexts and the active one.",
     "Lista contextos indexados y el activo."),
    ("context_use_desc", "Set the active context (release or prerelease).",
     "Establece el contexto activo (release o prerelease)."),
    ("context_detect_desc",
     "Detect HytaleServer.jar and save config (run before ctx init if JAR is not detected).",
     "Detecta HytaleServer.jar y guarda la configuración (ejecutar antes de ctx init si el JAR " ++
     "no está detectado)."),
    ("context_init_desc", "Full pipeline: decompile -> db. Only processes 'release' by default.",
     "Pipeline completo: decompile -> db. Por defecto solo procesa 'release'."),
    ("context_clean_desc", "Clean: db (DB only), build or b (decompiled), all (everything).",
     "Limpia: db (solo DB), build o b (decompilado), all (todo)."),
    ("context_reset_desc", "Reset project to zero: removes DB, build, and .prism.json.",
     "Deja el proyecto a cero: borra DB, build y .prism.json."),
    ("context_decompile_desc", "Decompiles HytaleServer.jar directly into workspace/sources.",
     "Descompila el archivo HytaleServer.jar directamente en workspace/sources."),
    ("context_db_desc", "Index code into SQLite (FTS5).", "Indexa el código en SQLite (FTS5).")] ++
  keyed "cli.context." [
    ("help", "Manage workspace context (decompile, prune, index).",
     "Gestión del contexto del espacio de trabajo (descompilación, poda, indexación)."),
    ("engine_help", "Decompiler engine to use (jadx, vineflower). Overrides configuration.",
     "Motor de descompilación a usar (jadx, vineflower). Sobrescribe la configuración.")] ++
  keyed "cli.query." [
    ("help", "Search the indexed Hytale API.", "Busca en la API de Hytale indexada."),
    ("usage", "Usage: python main.py query <term> [release|prerelease]",
     "Uso: python main.py query <término> [release|prerelease]"),
    ("no_db",
     "Database for version \x7bversion\x7d does not exist. Run 'ctx db \x7bversion\x7d' first.",
     "No existe la base de datos para la versión \x7bversion\x7d. Ejecuta 'ctx db " ++
     "\x7bversion\x7d' antes."),
    ("error", "Error querying DB: \x7bmsg\x7d", "Error al consultar la DB: \x7bmsg\x7d"),
    ("result_count", "\x7bcount\x7d result(s) for \"\x7bterm\x7d\" (version \x7bversion\x7d):",
     "\x7bcount\x7d resultado(s) para \"\x7bterm\x7d\" (versión \x7bversion\x7d):"),
    ("fts5_help", "Hint: use a single word or quoted phrase. Multiple terms: term1 AND term2.",
     "Sugerencia: usa una palabra o frase entre comillas. Varios términos: term1 AND term2."),
    ("term_help", "Search term (Rust-flavored regex by default, use \\b for word boundaries).",
     "Término de búsqueda (por defecto regex tipo Rust, usa \\b para límites de palabra)."),
    ("version_help", "Version to query against.", "Versión sobre la cual realizar la consulta."),
    ("json_help", "Output results in JSON format.", "Muestra los resultados en formato JSON."),
    ("limit_help", "Maximum number of results.", "Número máximo de resultados."),
    ("searching", "Searching \"\x7bterm\x7d\" in version \x7bversion\x7d...",
     "Buscando \"\x7bterm\x7d\" en la versión \x7bversion\x7d..."),
    ("no_results", "No results found for \"\x7bterm\x7d\" in version \x7bversion\x7d.",
     "No se encontraron resultados para \"\x7bterm\x7d\" en la versión \x7bversion\x7d."),
    ("table_title", "Search Results", "Resultados de la búsqueda")] ++
  keyed "cli.mcp." [
    ("help", "Start the Model Context Protocol (MCP) server.",
     "Inicia el servidor Model Context Protocol (MCP)."),
    ("not_implemented", "Command 'mcp' not implemented yet. See Phase 3 of the plan.",
     "Comando 'mcp' no implementado aún. Ver Fase 3 del plan."),
    ("instructions_title", "=== How to connect an MCP client (orbis-prism) ===",
     "=== Cómo conectar un cliente MCP (orbis-prism) ==="),
    ("instructions_intro",
     "This server uses stdio transport (no port). Add this server in your client (Cursor, " ++
     "Claude, etc.) with:",
     "Este servidor usa transporte stdio: no abre puerto. Añade este servidor en tu cliente " ++
     "(Cursor, Claude, etc.) con:"),
    ("instructions_command", "  Command (local): \x7bcommand\x7d",
     "  Comando (local): \x7bcommand\x7d"),
    ("instructions_command_global", "  Command (global): \x7bcommand\x7d",
     "  Comando (global): \x7bcommand\x7d"),
    ("instructions_args", "  Arguments: \x7bargs\x7d", "  Argumentos: \x7bargs\x7d"),
    ("instructions_cwd", "  Working directory: \x7bcwd\x7d",
     "  Directorio de trabajo: \x7bcwd\x7d"),
    ("instructions_ready", "Server ready. Waiting for stdio connection...",
     "Servidor listo. Esperando conexión por stdio..."),
    ("client_opencode", "OpenCode", "OpenCode"),
    ("client_cursor", "Cursor", "Cursor"),
    ("client_vscode", "VSCode (Cline/Roo)", "VSCode (Cline/Roo)"),
    ("client_antigravity", "Antigravity", "Antigravity"),
    ("client_gemini", "Gemini-CLI", "Gemini-CLI"),
    ("instructions_http_title", "=== MCP server in HTTP mode (orbis-prism) ===",
     "=== Servidor MCP en modo HTTP (orbis-prism) ==="),
    ("instructions_http_ready", "HTTP server ready. Listening on \x7bhost\x7d:\x7bport\x7d.",
     "Servidor HTTP listo. Escuchando en \x7bhost\x7d:\x7bport\x7d."),
    ("instructions_http_url", "  Connect to: \x7burl\x7d", "  Conecta a: \x7burl\x7d"),
    ("http_help", "Starts the MCP server in HTTP mode (default: stdio).",
     "Inicia el servidor MCP en modo HTTP (por defecto: stdio)."),
    ("port_help", "Port for HTTP mode.", "Puerto para el modo HTTP."),
    ("host_help", "Host for HTTP mode.", "Host para el modo HTTP."),
    ("server_stopped", "MCP server stopped.", "Servidor MCP detenido."),
    ("error", "MCP server error: \x7bmsg\x7d", "Error en el servidor MCP: \x7bmsg\x7d")] ++
  keyed "cli.lang." [
    ("help", "Manage CLI language.", "Gestiona el idioma del CLI."),
    ("set_usage", "Usage: python main.py lang set <code>",
     "Uso: python main.py lang set <código>")] ++
  keyed "cli.config." [
    ("help", "Configure project settings (JAR paths, decompiler engine, etc.).",
     "Configura ajustes del proyecto (rutas de JAR, motor de descompilación, etc.)."),
    ("set_help", "Sets a configuration key-value pair for the project.",
     "Establece un par clave-valor en la configuración del proyecto."),
    ("jar_set_success", "JAR path saved: \x7bpath\x7d", "Ruta del JAR guardada: \x7bpath\x7d"),
    ("jar_set_invalid", "Path does not exist or is not a valid JAR: \x7bpath\x7d",
     "La ruta no existe o no es un JAR válido: \x7bpath\x7d"),
    ("hytale_root_detected", "Hytale folder detected. Versions found:",
     "Carpeta Hytale detectada. Versiones encontradas:"),
    ("key_help",
     "Key: 'game_path' (Hytale root folder), 'jadx_path' (external JAR), 'decompiler' (jadx or " ++
     "vineflower).",
     "Clave: 'game_path' (directorio raíz de Hytale), 'jadx_path' (JAR externo), 'decompiler' " ++
     "(jadx o vineflower)."),
    ("value_help", "Value to assign to the chosen configuration key.",
     "Valor a asignar a la clave de configuración escogida."),
    ("jadx_path_invalid", "The JADX path is not a valid file: \x7bpath\x7d",
     "La ruta de JADX no es un archivo válido: \x7bpath\x7d"),
    ("jadx_path_set_success", "JADX path saved: \x7bpath\x7d",
     "Ruta de JADX guardada: \x7bpath\x7d"),
    ("unknown_key", "Unknown configuration key: \x7bkey\x7d",
     "Clave de configuración desconocida: \x7bkey\x7d"),
    ("decompiler_invalid", "The decompiler '\x7bvalue\x7d' is invalid. Use 'jadx' or 'vineflower'.",
     "El descompilador '\x7bvalue\x7d' no es válido. Usa 'jadx' o 'vineflower'."),
    ("decompiler_set_success", "Default decompiler engine set to: \x7bengine\x7d",
     "Motor de descompilación predeterminado establecido a: \x7bengine\x7d")] ++
  keyed "cli.build." [
    ("phase_decompile", "Phase 1/3: Decompiling (\x7bengine\x7d)...",
     "Fase 1/3: Descompilando (\x7bengine\x7d)..."),
    ("phase_decompile_done", "  Decompilation finished.", "  Descompilación finalizada."),
    ("phase_prune", "Phase 2/3: Pruning (Extracting Hytale SDK)...",
     "Fase 2/3: Podando (Extrayendo Hytale SDK)..."),
    ("phase_index", "Phase 3/3: Indexing (Generating API DB)...",
     "Fase 3/3: Indexando (Generando API DB)..."),
    ("indexing_version", "  Indexing \x7bversion\x7d...", "  Indexando \x7bversion\x7d..."),
    ("indexed",
     "    \x7bversion\x7d: \x7bclasses\x7d classes, \x7bmethods\x7d methods, \x7bconstants\x7d " ++
     "constants.",
     "    \x7bversion\x7d: \x7bclasses\x7d clases, \x7bmethods\x7d métodos, \x7bconstants\x7d " ++
     "constantes."),
    ("skipped_no_code", "    \x7bversion\x7d: skipped (no decompiled code).",
     "    \x7bversion\x7d: omitido (sin código descompilado)."),
    ("decompile_failed", "Decompilation failed.", "Falló la descompilación."),
    ("success", "Build completed. Code and DB updated.",
     "Build completado. Código y DB actualizados."),
    ("phase_assets", "Extra Phase: Indexing Assets...", "Fase Extra: Indexando Assets...")] ++
  keyed "cli.init." [
    ("jar_not_found", "Error: HytaleServer.jar not found.",
     "Error: HytaleServer.jar no encontrado."),
    ("hint_env", "  - Set HYTALE_JAR_PATH or use: python main.py config_impl set game_path <path>",
     "  - Define HYTALE_JAR_PATH o usa: python main.py config_impl set game_path <ruta>"),
    ("hint_windows",
     "  - On Windows the default path is %APPDATA%\\Hytale\\install\\...\\Server. For another " ++
     "path: python main.py config_impl set game_path <path>.",
     "  - En Windows la ruta por defecto es %APPDATA%\\Hytale\\install\\...\\Server. Para otra " ++
     "ruta: python main.py config_impl set game_path <ruta>."),
    ("env_jar_invalid", "HYTALE_JAR_PATH is set but the file does not exist or is not a valid JAR.",
     "HYTALE_JAR_PATH está definida pero el archivo no existe o no es un JAR válido."),
    ("success_jar", "Done. JAR detected: \x7bpath\x7d", "Listo. JAR detectado: \x7bpath\x7d"),
    ("success_config", "Config saved to: \x7bpath\x7d", "Config guardada en: \x7bpath\x7d"),
    ("attempting_detect", "No JAR in config. Attempting to detect HytaleServer.jar...",
     "No hay JAR en la config. Intentando detectar HytaleServer.jar..."),
    ("assets_help", "If enabled, also indexes the game assets.",
     "Si se activa, también indexará los assets del juego."),
    ("sibling_saved", "Other version detected and saved (release/pre-release): \x7bpath\x7d",
     "Otra versión detectada y guardada (release/pre-release): \x7bpath\x7d"),
    ("version_help", "Specific version to initialize.", "Versión específica a inicializar."),
    ("all_help", "Init all configured versions.", "Inicializar todas las versiones configuradas."),
    ("st_help", "Decompile using a single thread to reduce CPU usage.",
     "Descompila usando un solo hilo para reducir el uso de CPU.")] ++
  keyed "cli.decompile." [
    ("not_implemented", "Command 'decompile' not implemented yet. See Phase 1 of the plan.",
     "Comando 'decompile' no implementado aún. Ver Fase 1 del plan."),
    ("success", "Decompilation completed. Code in workspace/decompiled.",
     "Descompilación completada. Código en workspace/decompiled."),
    ("success_stats", "Decompilation completed: \x7bfiles\x7d files in \x7btime\x7d.",
     "Descompilación completada: \x7bfiles\x7d archivos en \x7btime\x7d."),
    ("no_jar", "No JAR configured. Run 'ctx init' or 'config_impl set game_path <path>'.",
     "No hay JAR configurado. Ejecuta 'ctx init' o 'config_impl set game_path <ruta>'."),
    ("no_jadx", "Error: Could not find or download JADX.",
     "Error: No se pudo encontrar ni descargar JADX."),
    ("jadx_failed", "JADX failed. Check logs/decompile_*.log.",
     "JADX falló. Revisa logs/decompile_*.log."),
    ("prune_failed", "Prune failed (com.hypixel.hytale not found).",
     "Poda falló (com.hypixel.hytale no encontrado)."),
    ("may_take", "  (The decompiler will take only a few seconds to start...)",
     "  (El descompilador tardará solo unos segundos en iniciar...)"),
    ("downloading", "Downloading decompiler engine (JADX)...",
     "Descargando motor de descompilación (JADX)..."),
    ("downloading_engine", "Downloading decompiler engine (\x7bengine\x7d)...",
     "Descargando motor de descompilación (\x7bengine\x7d)..."),
    ("java_not_found", "Error: Java 17+ not found in PATH. It is required to run the decompiler.",
     "Error: No se encontró Java 17+ instalado. Es necesario para ejecutar el descompilador."),
    ("no_vineflower", "Error: Could not find or download Vineflower.",
     "Error: No se pudo encontrar ni descargar Vineflower."),
    ("vineflower_failed", "Vineflower failed. Check logs/decompile_*.log.", ""),
    ("no_procyon", "Error: Could not find or download Procyon.", ""),
    ("jadx_finished_with_errors",
     "Warning: JADX finished with errors. Using generated output; check logs for details.",
     "Advertencia: JADX terminó con errores. Se usa la salida generada; revisa logs si " ++
     "necesitas detalles.")] ++
  keyed "cli.prune." [
    ("running", "Prune: copying com.hypixel.hytale from raw to decompiled (\x7bversion\x7d)...",
     "Poda: copiando com.hypixel.hytale desde raw a decompiled (\x7bversion\x7d)..."),
    ("done", "Prune: \x7bfiles\x7d files copied to \x7bdest\x7d (from raw/\x7bsubdir\x7d).",
     "Poda: \x7bfiles\x7d archivos copiados a \x7bdest\x7d (desde raw/\x7bsubdir\x7d)."),
    ("no_core",
     "Prune: com.hypixel.hytale not found in \x7braw_dir\x7d. Ensure JADX produced code (raw " ++
     "or raw/sources).",
     "Poda: no se encontró com.hypixel.hytale en \x7braw_dir\x7d. Revisa que Procyon haya " ++
     "generado código (raw o raw/sources)."),
    ("success", "Prune completed for \x7bversion\x7d.", "Poda completada para \x7bversion\x7d."),
    ("completed_all", "Prune completed for all versions.",
     "Poda completada para todas las versiones."),
    ("no_raw", "No raw output. Run 'ctx decompile' first to generate workspace/decompiled_raw.",
     "No hay salida raw. Ejecuta 'ctx decompile' antes para generar workspace/decompiled_raw."),
    ("prune_failed", "Prune failed.", "Poda falló.")] ++
  keyed "cli.index." [
    ("not_implemented", "Command 'index' not implemented yet. See Phase 2 of the plan.",
     "Comando 'index' no implementado aún. Ver Fase 2 del plan."),
    ("success",
     "Indexing completed. \x7bclasses\x7d classes, \x7bmethods\x7d methods, \x7bconstants\x7d " ++
     "constants in workspace/db/prism_api_\x7bversion\x7d.db.",
     "Indexación completada. \x7bclasses\x7d clases, \x7bmethods\x7d métodos, " ++
     "\x7bconstants\x7d constantes en workspace/db/prism_api_\x7bversion\x7d.db."),
    ("no_decompiled", "No decompiled code found. Run 'ctx decompile' first.",
     "No hay código descompilado. Ejecuta 'ctx decompile' antes."),
    ("db_error", "Error writing database. Check permissions and disk space.",
     "Error al escribir la base de datos. Revisa permisos y espacio.")] ++
  keyed "cli.mcp.table." [
    ("client", "Client", "Cliente"),
    ("config", "Configuration (JSON/Command)", "Configuración (JSON/Comando)"),
    ("instructions", "Instructions", "Instrucciones")] ++
  keyed "cli." [
    ("unknown_command", "Unknown command: \x7bcmd\x7d", "Comando desconocido: \x7bcmd\x7d"),
    ("ctx.help", "Alias for 'context'.", "Alias de 'context'."),
    ("serve.not_implemented", "Command 'serve' not implemented yet. See Phase 3 of the plan.",
     "Comando 'serve' no implementado aún. Ver Fase 3 del plan."),
    ("context.reset.done", "Project reset. Run context detect and init again.",
     "Proyecto reseteado. Ejecuta context detect e init de nuevo.")] ++
  keyed "cli.assets." [
    ("not_found", "Error: Assets.zip not found for version \x7bversion\x7d.",
     "Error: Assets.zip no encontrado para la versión \x7bversion\x7d."),
    ("indexing", "Phase: Indexing assets (\x7bversion\x7d)...",
     "Fase: Indexando assets (\x7bversion\x7d)..."),
    ("indexing_progress", "Progress: \x7bcurrent\x7d/\x7btotal\x7d",
     "Progreso: \x7bcurrent\x7d/\x7btotal\x7d"),
    ("success", "Assets indexed successfully for version \x7bversion\x7d.",
     "Assets indexados correctamente para la versión \x7bversion\x7d.")] ++
  keyed "lang.list." [
    ("header", "Available languages", "Idiomas disponibles"),
    ("current", "  \x7bcode\x7d - \x7bname\x7d (current)",
     "  \x7bcode\x7d - \x7bname\x7d (actual)"),
    ("entry", "  \x7bcode\x7d - \x7bname\x7d", "  \x7bcode\x7d - \x7bname\x7d")] ++
  keyed "lang.set." [
    ("success", "Language changed to: \x7blang\x7d", "Idioma cambiado a: \x7blang\x7d"),
    ("invalid", "Invalid or unavailable language: \x7blang\x7d",
     "Idioma no válido o no disponible: \x7blang\x7d")] ++
  keyed "cli.server.list." [
    ("title", "Indexed server versions (* = active):",
     "Versiones de servidor indexadas (* = activa):"),
    ("none", "No versions indexed. Run ctx db release or ctx db prerelease.",
     "No hay versiones indexadas. Ejecuta ctx db release o ctx db prerelease.")] ++
  keyed "cli.server.use." [
    ("success", "Active version: \x7bversion\x7d", "Versión activa: \x7bversion\x7d"),
    ("invalid", "Invalid version. Use release or prerelease.",
     "Versión no válida. Usa release o prerelease."),
    ("not_indexed", "Version \x7bversion\x7d is not indexed. Run ctx db \x7bversion\x7d.",
     "La versión \x7bversion\x7d no está indexada. Ejecuta ctx db \x7bversion\x7d.")] ++
  keyed "cli.context.list." [
    ("title", "Indexed contexts (* = active):", "Contextos indexados (* = activo):"),
    ("none", "No contexts indexed. Run ctx db release or ctx db prerelease.",
     "No hay contextos indexados. Ejecuta ctx db release o ctx db prerelease.")] ++
  keyed "cli.context.use." [
    ("success", "Active context: \x7bversion\x7d", "Contexto activo: \x7bversion\x7d"),
    ("invalid", "Invalid version. Use release or prerelease.",
     "Versión no válida. Usa release o prerelease."),
    ("not_indexed", "Context \x7bversion\x7d is not indexed. Run ctx db \x7bversion\x7d.",
     "El contexto \x7bversion\x7d no está indexado. Ejecuta ctx db \x7bversion\x7d.")] ++
  keyed "cli.context.clean." [
    ("usage", "Usage: context clean <db|build|all>", "Uso: context clean <db|build|all>"),
    ("db_done", "Databases removed.", "Bases de datos eliminadas."),
    ("build_done", "Build artifacts removed.", "Artefactos de build eliminados."),
    ("all_done", "DB and build artifacts removed.", "DB y artefactos de build eliminados.")] ++
  keyed "mcp.tools." [
    ("prism_search.description",
     "Search the indexed Hytale API (FTS5). Returns matching methods (or one row per class if " ++
     "unique_classes=True) with file_path for source code. FTS5 syntax: single word or quoted " ++
     "phrase; multiple terms: term1 AND term2; OR for alternatives. Use prism_fts_help for " ++
     "full syntax. Optional: package_prefix (e.g. com.hypixel.hytale.server), kind (class, " ++
     "interface, record, enum), unique_classes (one entry per class with method_count). For " ++
     "exact class when you know FQCN, prefer prism_get_class.",
     "Busca en la API indexada de Hytale (FTS5). Devuelve métodos que coinciden (o una fila " ++
     "por clase si unique_classes=True) con file_path para el código fuente. Sintaxis FTS5: " ++
     "palabra o frase entre comillas; varios términos: term1 AND term2; OR para alternativas. " ++
     "Usa prism_fts_help para la sintaxis completa. Opcional: package_prefix (ej. " ++
     "com.hypixel.hytale.server), kind (class, interface, record, enum), unique_classes (una " ++
     "entrada por clase con method_count). Para una clase exacta cuando conoces el FQCN, usa " ++
     "prism_get_class."),
    ("prism_get_class.description",
     "Get the exact class by package and class name (or by fqcn, e.g. " ++
     "com.hypixel.hytale.server.GameManager) with all its methods. Returns package, " ++
     "class_name, kind, file_path, and methods list (method, returns, params, is_static, " ++
     "annotation). Provide either (package + class_name) or fqcn.",
     "Obtiene la clase exacta por paquete y nombre de clase (o por fqcn, ej. " ++
     "com.hypixel.hytale.server.GameManager) con todos sus métodos. Devuelve package, " ++
     "class_name, kind, file_path y lista de methods (method, returns, params, is_static, " ++
     "annotation). Indica (package + class_name) o fqcn."),
    ("prism_list_classes.description",
     "List all classes in a package. package_prefix is the full package (e.g. " ++
     "com.hypixel.hytale.server). If prefix_match is True, includes subpackages. Use limit " ++
     "(default 100, max 500) and offset for pagination. Returns version, package_prefix, " ++
     "count, and classes (package, class_name, kind, file_path).",
     "Lista todas las clases de un paquete. package_prefix es el paquete completo (ej. " ++
     "com.hypixel.hytale.server). Si prefix_match es True, incluye subpaquetes. Usa limit (por " ++
     "defecto 100, máx 500) y offset para paginación. Devuelve version, package_prefix, count " ++
     "y classes (package, class_name, kind, file_path)."),
    ("prism_context_list.description",
     "List indexed server versions (release, prerelease) and the active context. Use to " ++
     "discover what is available before searching.",
     "Lista versiones de servidor indexadas (release, prerelease) y el contexto activo. Úsalo " ++
     "para ver qué hay disponible antes de buscar."),
    ("prism_index_stats.description",
     "Return the number of indexed classes and methods for a version. If version is omitted, " ++
     "uses the active context.",
     "Devuelve el número de clases y métodos indexados para una versión. Si se omite version, " ++
     "usa el contexto activo."),
    ("prism_read_source.description",
     "Read the contents of a decompiled Java source file. file_path is the relative path from " ++
     "the decompiled directory (e.g. from prism_search result). Optional start_line and " ++
     "end_line (1-based) return only that range; response includes total_lines and the " ++
     "requested range.",
     "Lee el contenido de un archivo Java descompilado. file_path es la ruta relativa al " ++
     "directorio descompilado (ej. resultado de prism_search). start_line y end_line " ++
     "opcionales (1-based) devuelven solo ese rango; la respuesta incluye total_lines y el " ++
     "rango solicitado."),
    ("prism_get_method.description",
     "Gets methods from a class that match the given name (exact match; includes overloads " ++
     "with different params). Returns package, class_name, kind, file_path, and list of " ++
     "methods. Use it when you need a specific method from a known class.",
     "Obtiene los métodos de una clase que coinciden con el nombre dado (coincidencia exacta; " ++
     "incluye sobrecargas con distintos params). Devuelve package, class_name, kind, file_path " ++
     "y lista de methods. Úsalo cuando necesites un método concreto de una clase conocida."),
    ("prism_get_hierarchy.description",
     "Gets the hierarchy of a class (parents and interfaces). Helps understand where methods " ++
     "come from without switching files.",
     "Obtiene la jerarquía de una clase (padres e interfaces). Ayuda a entender de dónde " ++
     "vienen los métodos sin cambiar de archivo."),
    ("prism_fts_help.description",
     "Returns a brief reference for the FTS5 syntax used by prism_search: single word, quoted " ++
     "phrase, AND/OR, prefix, and examples.",
     "Devuelve una referencia breve de la sintaxis FTS5 usada por prism_search: palabra, frase " ++
     "entre comillas, AND/OR, prefijo y ejemplos."),
    ("prism_find_usages.description",
     "Search for usages of a class in the decompiled source code. Useful to find " ++
     "implementation examples or the impact of changes.",
     "Busca usos de una clase en el código fuente descompilado. Útil para encontrar ejemplos " ++
     "de implementación o impacto de cambios."),
    ("prism_explain_concept.description",
     "Provides a detailed explanation of a Hytale concept (e.g., 'ECS', 'Teleport').",
     "Proporciona una explicación detallada de un concepto de Hytale (ej. 'ECS', 'Teleport')."),
    ("prism_find_system_for_component.description",
     "Searches for systems that process a specific component based on method parameters.",
     "Busca sistemas que procesan una componente específica basándose en parámetros de métodos."),
    ("prism_get_usage_snippet.description",
     "Retrieves a code snippet from a file around a specific string (e.g., class or method name).",
     "Obtiene un fragmento de código de un archivo alrededor de una cadena específica (ej. " ++
     "nombre de clase o método)."),
    ("prism_detect_patterns.description",
     "Detects design patterns (Singleton, Factory, ECS) in a specific class.",
     "Detecta patrones de diseño (Singleton, Factory, ECS) en una clase específica."),
    ("prism_list_packages.description",
     "Lists subpackages of the Hytale API. If package_prefix is provided, lists subpackages " ++
     "starting with that prefix. Useful for discovering project structure.",
     "Lista paquetes de la API de Hytale. Si se proporciona package_prefix, lista subpaquetes " ++
     "que comiencen por ese prefijo. Útil para descubrir la estructura del proyecto."),
    ("prism_find_implementations.description",
     "Finds all classes that implement an interface or inherit from a specific class.",
     "Busca todas las clases que implementan una interfaz o heredan de una clase específica."),
    ("prism_get_events.description",
     "Lists all defined events and subscriptions found in the Hytale system.",
     "Lista todos los eventos definidos y las suscripciones encontradas en el sistema de Hytale."),
    ("prism_call_flow.description",
     "Analyzes who calls a method, grouping results by package and class for better clarity.",
     "Analiza quién llama a un método, agrupando los resultados por paquete y clase para mayor " ++
     "claridad.")] ++
  keyed "mcp." [
    ("error.concept_not_found",
     "Concept '\x7bconcept\x7d' not found in the local knowledge base. Try searching for " ++
     "related classes with 'prism_search'.",
     "Concepto '\x7bconcept\x7d' no encontrado en la base de conocimientos local. Intenta " ++
     "buscar clases relacionadas con 'prism_search'.")]

def english : List (String × String) :=
  texts.map fun t => (t.1, t.2.1)

def spanish : List (String × String) :=
  texts.filterMap fun t => if t.2.2 == "" then none else some (t.1, t.2.2)

end JarAtlas.Messages
